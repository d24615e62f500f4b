import Bellman.Proofs.Parameters.Range

/-!
# Parameters that are read again

A mapping gives every field of the parameters in the kind of value that the field holds. What is
of that kind already is given as it stands, so that accepted parameters are read as themselves once
they are written under the names of their fields. Nothing but these names is looked up: whatever is
put under other keys of a mapping, or erased there, changes neither the parameters nor the fault.
-/

namespace Bellman

open Data

namespace Data.Value

theorem toEntries_map (entries : List (Value × Value)) : (map entries).toEntries = .ok entries := by
  cases entries <;> rfl

theorem toText_text (s : String) : (text s).toText = .ok s := rfl

theorem toFloat_float (x : Float) : (float x).toFloat = .ok x := rfl

variable {entries : List (Value × Value)} {k key : Value} {name : String}

/-- What is equal to a text as a key carries the text to all that is equal to it. -/
theorem sameKey_text_of_sameKey (hk : k.sameKey (text name) = true)
    (h : k.sameKey key = true) : key.sameKey (text name) = true := by
  -- only texts and update modes are equal to a text
  cases k with
  | text s =>
      obtain rfl : s = name := eq_of_beq hk
      cases key with
      | text s' => exact beq_iff_eq.mpr (eq_of_beq h).symm
      | mode m => exact beq_iff_eq.mpr (eq_of_beq h).symm
      | _ => cases h
  | mode m =>
      obtain rfl : m.keyword = name := eq_of_beq hk
      cases key with
      | text s => exact beq_iff_eq.mpr (eq_of_beq h).symm
      | mode m' =>
          obtain rfl : m = m' := eq_of_beq h
          exact hk
      | _ => cases h
  | _ => cases hk

theorem sameKey_text_eq_false (hkey : key.sameKey (text name) = false)
    (h : k.sameKey key = true) : k.sameKey (text name) = false :=
  Bool.eq_false_iff.mpr fun hk => Bool.eq_false_iff.mp hkey (sameKey_text_of_sameKey hk h)

theorem lookup?_cons (k v : Value) (rest : List (Value × Value)) (name : String) :
    lookup? ((k, v) :: rest) name =
      if k.sameKey (text name) then some v else lookup? rest name := by
  simp only [lookup?, List.find?_cons]
  cases k.sameKey (text name) <;> rfl

theorem lookup?_insertEntry (value : Value) (hkey : key.sameKey (text name) = false) :
    lookup? (insertEntry key value entries) name = lookup? entries name := by
  induction entries with
  | nil => rw [insertEntry, lookup?_cons, hkey]; rfl
  | cons entry rest ih =>
      obtain ⟨k, v⟩ := entry
      rw [insertEntry]
      split
      · next hsame =>
          rw [lookup?_cons, lookup?_cons, sameKey_text_eq_false hkey hsame]
          rfl
      · rw [lookup?_cons, lookup?_cons, ih]

theorem lookup?_filter (hkey : key.sameKey (text name) = false) :
    lookup? (entries.filter fun entry => !entry.1.sameKey key) name = lookup? entries name := by
  induction entries with
  | nil => rfl
  | cons entry rest ih =>
      obtain ⟨k, v⟩ := entry
      rw [List.filter_cons]
      cases hsame : k.sameKey key with
      | true =>
          rw [Bool.not_true, lookup?_cons, sameKey_text_eq_false hkey hsame]
          exact ih
      | false => rw [Bool.not_false, if_pos rfl, lookup?_cons, lookup?_cons, ih]

/-- Under the name of a field its value is found, if no other field has the name. -/
theorem lookup?_of_mem {fields : List (String × Value)} (hnames : (fields.map Prod.fst).Nodup) :
    ∀ field ∈ fields,
      lookup? (fields.map fun field => (text field.1, field.2)) field.1 = some field.2 := by
  induction fields with
  | nil => nofun
  | cons first rest ih =>
      obtain ⟨hfirst, hrest⟩ := List.nodup_cons.mp hnames
      intro field hfield
      rw [List.map_cons, lookup?_cons]
      rcases List.mem_cons.mp hfield with rfl | hmem
      · exact if_pos (beq_self_eq_true field.1)
      · have hne : ¬ (text first.1).sameKey (text field.1) = true := by
          intro hsame
          obtain heq : first.1 = field.1 := eq_of_beq hsame
          exact hfirst (heq ▸ List.mem_map_of_mem hmem)
        rw [if_neg hne]
        exact ih hrest field hmem

end Data.Value

namespace Data

/-- A change of what a mapping holds under one key. -/
inductive Edit where
  | put (key value : Value)
  | erase (key : Value)

namespace Edit

/-- The key under which something is changed. -/
def key : Edit → Value
  | put key _ => key
  | erase key => key

/-- The entries of a mapping after a change. -/
def apply (entries : List (Value × Value)) : Edit → List (Value × Value)
  | put key value => Value.insertEntry key value entries
  | erase key => entries.filter fun entry => !entry.1.sameKey key

/-- The entries of a mapping after one change after the other. -/
def applyAll (entries : List (Value × Value)) (edits : List Edit) : List (Value × Value) :=
  edits.foldl apply entries

variable {entries : List (Value × Value)} {name : String}

theorem lookup?_apply {edit : Edit} (h : edit.key.sameKey (.text name) = false) :
    Value.lookup? (apply entries edit) name = Value.lookup? entries name := by
  cases edit with
  | put key value => exact Value.lookup?_insertEntry value h
  | erase key => exact Value.lookup?_filter h

theorem lookup?_applyAll {edits : List Edit}
    (h : ∀ edit ∈ edits, edit.key.sameKey (.text name) = false) :
    Value.lookup? (applyAll entries edits) name = Value.lookup? entries name := by
  induction edits generalizing entries with
  | nil => rfl
  | cons edit rest ih =>
      obtain ⟨hedit, hrest⟩ := List.forall_mem_cons.mp h
      exact (ih hrest).trans (lookup?_apply hedit)

end Edit

end Data

namespace Parameters

/-- The names of the fields. -/
def fieldNames : List String :=
  ["solver", "solver_executable", "solver_options", "time_limit_s", "tee", "update_mode",
    "infinity", "alpha_lower_bound", "noise_tolerance", "cut_variable", "log_level"]

/-- A key of a mapping under which a field is looked up. -/
def IsField (key : Value) : Prop :=
  ∃ name ∈ fieldNames, key.sameKey (.text name) = true

instance (key : Value) : Decidable (IsField key) :=
  inferInstanceAs (Decidable (∃ name ∈ fieldNames, key.sameKey (.text name) = true))

namespace Given

variable {entries entries' : List (Value × Value)} {g : Given}

theorem map_fst_toEntries (g : Given) : g.toEntries.map Prod.fst = fieldNames := rfl

theorem ofEntries_congr
    (h : ∀ name ∈ fieldNames, Value.lookup? entries name = Value.lookup? entries' name) :
    ofEntries entries = ofEntries entries' := by
  simp only [fieldNames, List.forall_mem_cons] at h
  simp only [ofEntries, h]

theorem convertTimeLimit_eq_ok {v w : Value} (h : convertTimeLimit v = .ok w) :
    convertTimeLimit w = .ok w := by
  unfold convertTimeLimit at h
  split at h
  · obtain rfl := Except.ok.inj h
    rfl
  · obtain ⟨x, -, rfl⟩ := map_eq_ok.mp h
    rfl

/-- Every field is as it would be converted. -/
structure IsConverted (g : Given) : Prop where
  solver : ∃ s, g.solver = .text s
  executable : (if g.executable.isTrue then g.executable else .null) = g.executable
  options : ∃ entries, g.options = .map entries
  timeLimit : convertTimeLimit g.timeLimit = .ok g.timeLimit
  verbose : ∃ b, g.verbose = .bool b
  infinity : ∃ x, g.infinity = .float x
  alphaLowerBound : ∃ x, g.alphaLowerBound = .float x
  noiseTolerance : ∃ x, g.noiseTolerance = .float x
  cutVariable : ∃ s, g.cutVariable = .text s
  logLevel : ∃ s, g.logLevel = .text s

theorem isConverted_of_ofEntries (h : ofEntries entries = .ok g) : g.IsConverted := by
  simp only [ofEntries, bind_eq_ok, pure_eq_ok] at h
  obtain ⟨solver, -, options, -, limit, hlimit, infinity, -, alpha, -, tolerance, -, cut, -,
    level, -, rfl⟩ := h
  refine ⟨⟨_, rfl⟩, ?_, ⟨_, rfl⟩, ?_, ⟨_, rfl⟩, ⟨_, rfl⟩, ⟨_, rfl⟩, ⟨_, rfl⟩, ⟨_, rfl⟩, ⟨_, rfl⟩⟩
  · dsimp only
    split
    · rfl
    · exact ite_self _
  · exact convertTimeLimit_eq_ok hlimit

/-- What is given, written under the names of the fields. -/
def written (g : Given) : List (Value × Value) :=
  g.toEntries.map fun field => (.text field.1, field.2)

/-- What is converted is given as it stands. -/
theorem IsConverted.ofEntries_written (h : g.IsConverted) : ofEntries g.written = .ok g := by
  have hfields : ∀ field ∈ g.toEntries, Value.lookup? g.written field.1 = some field.2 := by
    refine Value.lookup?_of_mem ?_
    rw [map_fst_toEntries]
    decide
  -- from here on the fields are seen by looking them up, and no longer as a list
  generalize g.written = entries at hfields
  simp only [toEntries, List.forall_mem_cons] at hfields
  cases g
  obtain ⟨⟨solver, rfl⟩, hexecutable, ⟨options, rfl⟩, hlimit, ⟨verbose, rfl⟩, ⟨infinity, rfl⟩,
    ⟨alpha, rfl⟩, ⟨tolerance, rfl⟩, ⟨cut, rfl⟩, ⟨level, rfl⟩⟩ := h
  simp only [ofEntries, hfields, Option.getD_some, Value.toText_text, Value.toFloat_float,
    Value.toEntries_map, ok_bind]
  dsimp only at hexecutable hlimit
  rw [hlimit, hexecutable]
  rfl

end Given

section Again

variable {g : Given} {p : Parameters} {mode : Value}

theorem Given.Passes.eq_given (h : g.Passes p) : g = p.given g.updateMode := by
  cases g
  obtain ⟨-, hinfinity, htolerance, hlimit, rfl, rfl, rfl, rfl, rfl, rfl, rfl⟩ := h
  obtain ⟨rfl, -⟩ := hinfinity
  obtain ⟨rfl, -⟩ := htolerance
  obtain ⟨rfl, -⟩ := hlimit
  rfl

/-- What passed passes again, whatever the form of its mode. -/
theorem Given.Passes.given (h : g.Passes p) (hmode : UpdateMode.parse mode = .ok p.updateMode) :
    (p.given mode).Passes p where
  updateMode := hmode
  infinity := ⟨rfl, h.infinity.2⟩
  noiseTolerance := ⟨rfl, h.noiseTolerance.2⟩
  timeLimit := ⟨rfl, h.timeLimit.2⟩
  cutVariable := rfl
  solver := rfl
  executable := rfl
  options := rfl
  verbose := rfl
  alphaLowerBound := rfl
  logLevel := rfl

theorem isConverted_given {mode' : Value} (h : (p.given mode).IsConverted) :
    (p.given mode').IsConverted :=
  ⟨h.solver, h.executable, h.options, h.timeLimit, h.verbose, h.infinity, h.alphaLowerBound,
    h.noiseTolerance, h.cutVariable, h.logLevel⟩

/-- The parameters as a mapping of the names of their fields, with their update mode in the form
`mode`. -/
def toMapping (p : Parameters) (mode : Value) : Value :=
  .map (p.given mode).written

variable {raw : Value} {entries : List (Value × Value)}

/-- Accepted parameters are read as themselves. -/
theorem ofMapping_toMapping (h : ofMapping raw = .ok p)
    (hmode : UpdateMode.parse mode = .ok p.updateMode) : ofMapping (p.toMapping mode) = .ok p := by
  obtain ⟨g, hg, hpasses⟩ := ofMapping_eq_ok.mp h
  obtain ⟨entries, -, hentries⟩ := bind_eq_ok.mp hg
  have hconverted : (p.given g.updateMode).IsConverted :=
    hpasses.eq_given ▸ Given.isConverted_of_ofEntries hentries
  refine ofMapping_eq_ok.mpr ⟨p.given mode, ?_, hpasses.given hmode⟩
  rw [toMapping, Given.ofMapping, Value.toEntries_map, ok_bind]
  exact (isConverted_given hconverted).ofEntries_written

/-- What is taken as a mapping is read as the mapping that it is taken as. -/
theorem ofMapping_map_toEntries (h : raw.toEntries = .ok entries) :
    ofMapping (.map entries) = ofMapping raw := by
  simp only [ofMapping, Value.toEntries_map, h]

theorem ofMapping_applyAll {edits : List Edit} (h : ∀ edit ∈ edits, ¬ IsField edit.key) :
    ofMapping (.map (Edit.applyAll entries edits)) = ofMapping (.map entries) := by
  have hsame : Given.ofEntries (Edit.applyAll entries edits) = Given.ofEntries entries := by
    refine Given.ofEntries_congr fun name hname => Edit.lookup?_applyAll ?_
    intro edit hedit
    exact Bool.eq_false_iff.mpr fun hkey => h edit hedit ⟨name, hname, hkey⟩
  simp only [ofMapping, Value.toEntries_map, ok_bind, hsame]

end Again

/-- Accepted parameters are read as themselves under the names of their fields, be their update mode
given as such or by its keyword. And whatever is taken as a mapping gives the same parameters, or
the same fault, after any changes under keys that are not the names of fields. -/
theorem ofMapping_again (raw : Value) :
    (∀ p, ofMapping raw = .ok p →
      ofMapping (p.toMapping (.mode p.updateMode)) = .ok p ∧
      ofMapping (p.toMapping (.text p.updateMode.keyword)) = .ok p) ∧
    ∀ entries, raw.toEntries = .ok entries →
      ∀ edits : List Edit, (∀ edit ∈ edits, ¬ IsField edit.key) →
        ofMapping (.map (Edit.applyAll entries edits)) = ofMapping raw := by
  constructor
  · intro p h
    refine ⟨ofMapping_toMapping h rfl, ?_⟩
    exact ofMapping_toMapping h (UpdateMode.parse_keyword p.updateMode)
  · intro entries hentries edits hedits
    rw [ofMapping_applyAll hedits, ofMapping_map_toEntries hentries]

end Parameters

namespace Stock

open Parameters

/-- Fields of other kinds than the parameters have, and a key that names no field. -/
def looseEntries : List (Value × Value) :=
  [(.text "solver_options", .list [.tuple [.text "presolve", .bool true]]),
    (.text "time_limit_s", .bool true), (.text "tee", .text "no"),
    (.text "update_mode", .text " slot-reuse "), (.text "alpha_lower_bound", .text "nan"),
    (.text "cut_variable", .text "state"), (.text "threads", .int 4)]

/-- A key is changed, another one is added, and the first is erased. -/
def looseEdits : List Edit :=
  [.put (.text "threads") (.int 8), .put (.mode .rebuild) .null, .erase (.text "threads")]

theorem ofMapping_loose : ∃ p, ofMapping (.map looseEntries) = .ok p ∧
    ofMapping (p.toMapping (.mode .slotReuse)) = .ok p ∧
    ofMapping (p.toMapping (.text "SLOT_REUSE")) = .ok p ∧
    ofMapping (.map (Edit.applyAll looseEntries looseEdits)) = .ok p := by
  have hmode : (ofMapping (.map looseEntries)).toOption.any
      (fun p => p.updateMode = .slotReuse) = true := by
    decide +kernel
  obtain ⟨p, hp, hmode⟩ := exists_of_any hmode
  obtain ⟨hagain, hedited⟩ := ofMapping_again (.map looseEntries)
  obtain ⟨hchoice, hkeyword⟩ := hagain p hp
  rw [of_decide_eq_true hmode] at hchoice hkeyword
  refine ⟨p, hp, hchoice, hkeyword, ?_⟩
  refine (hedited _ (Value.toEntries_map _) looseEdits ?_).trans hp
  decide

end Stock

end Bellman
