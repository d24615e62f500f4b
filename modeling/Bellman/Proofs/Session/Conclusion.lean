import Bellman.Proofs.Session.Complete
import Bellman.Proofs.Session.StageModel

/-!
# What a model concludes from a reply

When the backend has ended with an optimum, a step is put together from the numbers that the model
holds by then. `StageModel.Holds` says which step that is, and `StageModel.Lacks` which faults there
are if the numbers do not make up a step. Both the conditions for a step and the way in which the
status of a reply decides on the outcome are spelled out.
-/

namespace Bellman

open Data

variable {S : Type} [Scalar S]

/-- Whether a number is reported and is read as a scalar. -/
def Reported.Reads (reported : Option (Reported S)) (s : S) : Prop :=
  ∃ x, reported = some x ∧ x.read = .ok s

namespace Reported

variable {e : Fault}

theorem exists_of_read_eq_error {x : Reported S} (h : x.read = .error e) :
    ∃ v, (Scalar.read v : Except Fault S) = .error e := by
  cases x with
  | scalar s => cases h
  | plain n => exact ⟨.num n, h⟩

variable [Add S]

theorem exists_of_foldlM_eq_error {start : S} {reported : List (Reported S)}
    (h : reported.foldlM (fun s x => do return s + (← x.read)) start = .error e) :
    ∃ v, (Scalar.read v : Except Fault S) = .error e := by
  induction reported generalizing start with
  | nil => exact absurd h pure_ne_error
  | cons x reported ih =>
      simp only [List.foldlM_cons, bind_eq_error, pure_ne_error, and_false, exists_false,
        or_false] at h
      rcases h with hx | ⟨next, -, hrest⟩
      · exact exists_of_read_eq_error hx
      · exact ih hrest

/-- A sum fails only for a number that cannot be read. -/
theorem exists_of_sum_eq_error [Zero S] {reported : List (Reported S)}
    (h : sum reported = .error e) : ∃ v, (Scalar.read v : Except Fault S) = .error e := by
  unfold sum at h
  by_cases hnone : (reported.takeWhile (·.whole?.isSome)).isEmpty
  · simp only [hnone, if_true, pure_bind] at h
    exact exists_of_foldlM_eq_error h
  · simp only [hnone, Bool.false_eq_true, if_false, bind_eq_error] at h
    rcases h with hstart | ⟨start, -, hrest⟩
    · exact ⟨_, hstart⟩
    · exact exists_of_foldlM_eq_error hrest

end Reported

/-- What arithmetic is assumed to do so that the terms of an objective add up to its value: a factor
one does not matter, and the sum of reported numbers is the sum of the scalars that they are read
as. -/
structure Scalar.AddsUp (S : Type) [Scalar S] [Zero S] [One S] [Add S] [Mul S] [LE S]
    [DecidableLE S] : Prop where
  one_mul : ∀ s x : S, isOne s = true → s * x = x
  sum : ∀ (reported : List (Reported S)) (values : List S),
    List.Forall₂ (fun x s => x.read = .ok s) reported values →
      Reported.sum reported = .ok (total values)

/-- Exact arithmetic adds up. -/
theorem Scalar.IsExact.addsUp [CommRing S] [LinearOrder S] [Scalar.IsExact S] :
    Scalar.AddsUp S where
  one_mul := by
    intro s x hs
    simp only [isOne, Bool.and_eq_true, decide_eq_true_eq] at hs
    rw [le_antisymm hs.1 hs.2, one_mul]
  sum := by
    intro reported values h
    rw [Reported.sum_eq_of_read h, total_eq_sum]

/-- The decision variable in a term, if there is one. -/
def Term.column? : Term S → Option Column
  | .weight _ => none
  | .multiple x => some x.column

/-- The columns whose values a step is put together from. -/
def StageProgram.stepColumns [One S] (p : StageProgram S) : List Column :=
  (List.range p.dimStates).map .nextState ++ (List.range p.controlBounds.length).map .control ++
    p.objective.filterMap Term.column? ++ [.future]

namespace StageModel

variable [Zero S] [One S] [Add S] [Mul S] [LE S] [DecidableLE S]

/-- Whether a step is the one that a model holds: its coordinates are the duals of the state rows
and the values of the columns in order, and its objective is the sum of what the terms of the
objective come to. -/
structure Holds (m : StageModel S) (step : Step S) : Prop where
  dualState : List.Forall₂ (fun i => Reported.Reads (m.stored.dual? i))
    (List.range m.program.dimStates) step.dualState
  nextState : List.Forall₂ (fun i => Reported.Reads (m.stored.value? (.nextState i)))
    (List.range m.program.dimStates) step.nextState
  control : List.Forall₂ (fun j => Reported.Reads (m.stored.value? (.control j)))
    (List.range m.program.controlBounds.length) step.control
  objective : ∃ reported,
    List.Forall₂ (fun t x => m.storedTerm t = .ok x) m.program.objective reported ∧
      Reported.sum reported = .ok step.objective
  futureCost : Reported.Reads (m.stored.value? .future) step.futureCost

/-- Whether a model has a dual for every state row, and a value for every column that is read. -/
structure HasAll (m : StageModel S) : Prop where
  duals : ∀ i < m.program.dimStates, (m.stored.dual? i).isSome
  values : ∀ c ∈ m.program.stepColumns, (m.stored.value? c).isSome

omit [Scalar S] [Zero S] [Add S] [Mul S] [LE S] [DecidableLE S] in
instance (m : StageModel S) : Decidable m.HasAll :=
  decidable_of_iff
    ((∀ i < m.program.dimStates, (m.stored.dual? i).isSome) ∧
      ∀ c ∈ m.program.stepColumns, (m.stored.value? c).isSome)
    ⟨fun h => ⟨h.1, h.2⟩, fun h => ⟨h.duals, h.values⟩⟩

/-- Whether every number that a model holds can be read, and so can the sum of the whole ones that
come first in its objective. -/
structure IsReadable (m : StageModel S) : Prop where
  duals : ∀ i x, m.stored.dual? i = some x → ∃ s, x.read = .ok s
  values : ∀ c x, m.stored.value? c = some x → ∃ s, x.read = .ok s
  wholes : ∀ reported,
    List.Forall₂ (fun t x => m.storedTerm t = .ok x) m.program.objective reported →
      ∃ s : S, Scalar.read
        (.int ((reported.takeWhile (·.whole?.isSome)).filterMap Reported.whole?).sum) = .ok s

/-- The faults for which what a model holds does not make up a step. -/
inductive Lacks (m : StageModel S) (solver : String) (termination : Option String) : Fault → Prop
  | dual (i : Nat) (hi : i < m.program.dimStates) (h : m.stored.dual? i = none) :
      Lacks m solver termination (.missingDual solver (RowName.stateFix i).text termination)
  | value (c : Column) (h : m.stored.value? c = none) : Lacks m solver termination .valueMissing
  | number (v : Value) (e : Fault) (h : (Scalar.read v : Except Fault S) = .error e) :
      Lacks m solver termination e

variable {m : StageModel S} {solver : String} {termination : Option String} {e : Fault}

omit [Scalar S] [Zero S] [One S] [Add S] [Mul S] [LE S] [DecidableLE S] in
theorem storedValue_eq_ok_iff {c : Column} {x : Reported S} :
    m.storedValue c = .ok x ↔ m.stored.value? c = some x := by
  unfold storedValue
  cases m.stored.value? c <;> simp

omit [Scalar S] [Zero S] [One S] [Add S] [Mul S] [LE S] [DecidableLE S] in
theorem storedValue_eq_error {c : Column} (h : m.storedValue c = .error e) :
    m.stored.value? c = none ∧ e = .valueMissing := by
  unfold storedValue at h
  cases hc : m.stored.value? c with
  | some x =>
      simp only [hc] at h
      cases h
  | none =>
      simp only [hc] at h
      exact ⟨rfl, (Except.error.inj h).symm⟩

/-- The dual of a state row, as a step has it. -/
def readDual (m : StageModel S) (solver : String) (termination : Option String) (i : Nat) :
    Except Fault S :=
  match m.stored.dual? i with
  | some d => d.read
  | none => .error (.missingDual solver (RowName.stateFix i).text termination)

/-- The value of a column, as a step has it. -/
def readValue (m : StageModel S) (c : Column) : Except Fault S := do
  (← m.storedValue c).read

/-- A step is put together from duals, values, and the sum of the terms of the objective. -/
theorem storedStep_eq (m : StageModel S) (solver : String) (termination : Option String) :
    m.storedStep solver termination = (do
      let dualState ← (List.range m.program.dimStates).mapM (m.readDual solver termination)
      let nextState ← (List.range m.program.dimStates).mapM fun i => m.readValue (.nextState i)
      let control ← (List.range m.program.controlBounds.length).mapM fun j =>
        m.readValue (.control j)
      let objective ← Reported.sum (← m.program.objective.mapM m.storedTerm)
      let futureCost ← m.readValue .future
      return { nextState, control, dualState, objective, futureCost }) := by
  simp only [storedStep, readValue, bind_assoc]
  rfl

section Reading

omit [Zero S] [One S] [Add S] [Mul S] [LE S] [DecidableLE S]

theorem readValue_eq_ok_iff {c : Column} {s : S} :
    m.readValue c = .ok s ↔ Reported.Reads (m.stored.value? c) s := by
  simp only [readValue, bind_eq_ok, storedValue_eq_ok_iff, Reported.Reads]

theorem readDual_eq_ok_iff {i : Nat} {s : S} :
    m.readDual solver termination i = .ok s ↔ Reported.Reads (m.stored.dual? i) s := by
  unfold readDual Reported.Reads
  cases m.stored.dual? i <;> simp

theorem lacks_of_readDual {i : Nat} (hi : i < m.program.dimStates)
    (h : m.readDual solver termination i = .error e) : m.Lacks solver termination e := by
  unfold readDual at h
  cases hdual : m.stored.dual? i with
  | some d =>
      simp only [hdual] at h
      obtain ⟨v, hv⟩ := Reported.exists_of_read_eq_error h
      exact .number v e hv
  | none =>
      simp only [hdual] at h
      obtain rfl := Except.error.inj h
      exact .dual i hi hdual

theorem lacks_of_readValue {c : Column} (h : m.readValue c = .error e) :
    m.Lacks solver termination e := by
  rcases bind_eq_error.mp h with hvalue | ⟨x, -, hread⟩
  · obtain ⟨hnone, rfl⟩ := storedValue_eq_error hvalue
    exact .value c hnone
  · obtain ⟨v, hv⟩ := Reported.exists_of_read_eq_error hread
    exact .number v e hv

end Reading

/-- There is a step exactly if the model holds it. -/
theorem storedStep_eq_ok_iff (m : StageModel S) (solver : String) (termination : Option String)
    {step : Step S} : m.storedStep solver termination = .ok step ↔ m.Holds step := by
  simp only [storedStep_eq, bind_eq_ok, mapM_eq_ok, pure_eq_ok, readDual_eq_ok_iff,
    readValue_eq_ok_iff]
  constructor
  · rintro ⟨duals, hduals, next, hnext, control, hcontrol, reported, hterms, objective, hsum,
      future, hfuture, rfl⟩
    exact ⟨hduals, hnext, hcontrol, ⟨reported, hterms, hsum⟩, hfuture⟩
  · rintro ⟨hduals, hnext, hcontrol, ⟨reported, hterms, hsum⟩, hfuture⟩
    exact ⟨_, hduals, _, hnext, _, hcontrol, reported, hterms, _, hsum, _, hfuture, rfl⟩

omit [Zero S] [Add S] in
theorem lacks_of_storedTerm [Zero S] {t : Term S} (h : m.storedTerm t = .error e) :
    m.Lacks solver termination e := by
  cases t with
  | weight x => cases h
  | multiple x =>
      simp only [storedTerm, bind_eq_error] at h
      rcases h with hvalue | ⟨v, -, h⟩
      · obtain ⟨hnone, rfl⟩ := storedValue_eq_error hvalue
        exact .value _ hnone
      · have hread : v.read = .error e := by
          cases x with
          | single s c =>
              dsimp only at h
              split at h
              · exact absurd h pure_ne_error
              · simpa only [bind_eq_error, pure_ne_error, and_false, exists_false, or_false] using h
          | weighted y c =>
              simpa only [bind_eq_error, pure_ne_error, and_false, exists_false, or_false] using h
          | scaled s y =>
              simpa only [bind_eq_error, pure_ne_error, and_false, exists_false, or_false] using h
          | times y k =>
              simpa only [bind_eq_error, pure_ne_error, and_false, exists_false, or_false] using h
        obtain ⟨w, hw⟩ := Reported.exists_of_read_eq_error hread
        exact .number w e hw

/-- If there is no step, something is missing or cannot be read. -/
theorem lacks_of_storedStep (h : m.storedStep solver termination = .error e) :
    m.Lacks solver termination e := by
  simp only [storedStep_eq, bind_eq_error, pure_ne_error, and_false, exists_false, or_false] at h
  rcases h with hduals | ⟨_, -, h⟩
  · obtain ⟨i, hi, hdual⟩ := exists_of_mapM_eq_error hduals
    exact lacks_of_readDual (List.mem_range.mp hi) hdual
  rcases h with hnext | ⟨_, -, h⟩
  · obtain ⟨i, -, hvalue⟩ := exists_of_mapM_eq_error hnext
    exact lacks_of_readValue hvalue
  rcases h with hcontrol | ⟨_, -, h⟩
  · obtain ⟨j, -, hvalue⟩ := exists_of_mapM_eq_error hcontrol
    exact lacks_of_readValue hvalue
  rcases h with hterms | ⟨_, -, h⟩
  · obtain ⟨t, -, hterm⟩ := exists_of_mapM_eq_error hterms
    exact lacks_of_storedTerm hterm
  rcases h with hsum | ⟨_, -, hfuture⟩
  · obtain ⟨v, hv⟩ := Reported.exists_of_sum_eq_error hsum
    exact .number v e hv
  · exact lacks_of_readValue hfuture

/-- If a dual is missing and the others can be read, there is no step, and the fault names the first
row that has no dual. -/
theorem storedStep_of_missing (solver : String) (termination : Option String)
    (hdual : ∃ i < m.program.dimStates, m.stored.dual? i = none)
    (hread : ∀ i x, m.stored.dual? i = some x → ∃ s, x.read = .ok s) :
    ∃ i < m.program.dimStates, m.stored.dual? i = none ∧ m.storedStep solver termination =
      .error (.missingDual solver (RowName.stateFix i).text termination) := by
  cases hduals : (List.range m.program.dimStates).mapM (m.readDual solver termination) with
  | ok duals =>
      obtain ⟨i, hi, hnone⟩ := hdual
      obtain ⟨d, -, hd⟩ := getElem?_of_forall₂ (mapM_eq_ok.mp hduals)
        (List.getElem?_range hi)
      obtain ⟨x, hx, -⟩ := readDual_eq_ok_iff.mp hd
      rw [hnone] at hx
      cases hx
  | error e =>
      obtain ⟨i, hi, he⟩ := exists_of_mapM_eq_error hduals
      have hnone : m.stored.dual? i = none := by
        cases hx : m.stored.dual? i with
        | none => rfl
        | some x =>
            obtain ⟨s, hs⟩ := hread i x hx
            rw [readDual_eq_ok_iff.mpr ⟨x, hx, hs⟩] at he
            cases he
      refine ⟨i, List.mem_range.mp hi, hnone, ?_⟩
      have he' : e = .missingDual solver (RowName.stateFix i).text termination := by
        simp only [readDual, hnone] at he
        exact (Except.error.inj he).symm
      rw [storedStep_eq, hduals, he']
      rfl

omit [Add S] in
/-- A term comes to something if its column has a number that can be read. -/
theorem exists_storedTerm_of_isSome {t : Term S}
    (hsome : ∀ x, t = .multiple x → (m.stored.value? x.column).isSome)
    (hread : ∀ c x, m.stored.value? c = some x → ∃ s, x.read = .ok s) :
    ∃ x, m.storedTerm t = .ok x ∧ ∃ s, x.read = .ok s := by
  have hhas : ∀ x, t = .multiple x → m.stored.Has x.column := by
    intro x hx
    obtain ⟨v, hv⟩ := Option.isSome_iff_exists.mp (hsome x hx)
    obtain ⟨s, hs⟩ := hread _ v hv
    exact ⟨v, s, hv, hs⟩
  -- What a model holds is itself stored over nothing.
  have hself : m.stored = ({} : Solution S).store m.stored := by
    simp only [Solution.store, List.append_nil, List.drop_nil]
  obtain ⟨x, hx, hs, -⟩ := exists_storedTerm hself hhas
  exact ⟨x, hx, hs⟩

omit [Zero S] [Add S] [Mul S] [LE S] [DecidableLE S] [Scalar S] in
theorem hasAll_iff : m.HasAll ↔
    (∀ i < m.program.dimStates, (m.stored.dual? i).isSome) ∧
      (∀ i < m.program.dimStates, (m.stored.value? (.nextState i)).isSome) ∧
      (∀ j < m.program.controlBounds.length, (m.stored.value? (.control j)).isSome) ∧
      (∀ x, .multiple x ∈ m.program.objective → (m.stored.value? x.column).isSome) ∧
      (m.stored.value? .future).isSome := by
  have hobjective : (∀ c ∈ m.program.objective.filterMap Term.column?,
      (m.stored.value? c).isSome) ↔
        ∀ x, .multiple x ∈ m.program.objective → (m.stored.value? x.column).isSome := by
    simp only [List.mem_filterMap]
    constructor
    · intro h x hx
      exact h x.column ⟨.multiple x, hx, rfl⟩
    · rintro h c ⟨t, ht, hc⟩
      cases t with
      | weight y => cases hc
      | multiple x =>
          obtain rfl := Option.some.inj hc
          exact h x ht
  have hcolumns : (∀ c ∈ m.program.stepColumns, (m.stored.value? c).isSome) ↔
      (∀ i < m.program.dimStates, (m.stored.value? (.nextState i)).isSome) ∧
        (∀ j < m.program.controlBounds.length, (m.stored.value? (.control j)).isSome) ∧
        (∀ x, .multiple x ∈ m.program.objective → (m.stored.value? x.column).isSome) ∧
        (m.stored.value? .future).isSome := by
    simp only [StageProgram.stepColumns, List.forall_mem_append, hobjective, List.forall_mem_map,
      List.mem_range, List.forall_mem_singleton, and_assoc]
  rw [← hcolumns]
  exact ⟨fun h => ⟨h.duals, h.values⟩, fun h => ⟨h.1, h.2⟩⟩

/-- If all numbers can be read, there is a step exactly if there is a number for everything. -/
theorem exists_holds_iff (hread : m.IsReadable) : (∃ step, m.Holds step) ↔ m.HasAll := by
  have hreads : ∀ {reported : Option (Reported S)},
      (∀ x, reported = some x → ∃ s : S, x.read = .ok s) → reported.isSome →
        ∃ s, Reported.Reads reported s := by
    intro reported h hsome
    obtain ⟨x, hx⟩ := Option.isSome_iff_exists.mp hsome
    obtain ⟨s, hs⟩ := h x hx
    exact ⟨s, x, hx, hs⟩
  have hvalue : ∀ {c : Column}, (m.stored.value? c).isSome →
      ∃ s, Reported.Reads (m.stored.value? c) s := hreads (hread.values _)
  rw [hasAll_iff]
  constructor
  · rintro ⟨step, h⟩
    have hsome : ∀ {n : Nat} {number : Nat → Option (Reported S)} {xs : List S},
        List.Forall₂ (fun i => Reported.Reads (number i)) (List.range n) xs →
          ∀ i < n, (number i).isSome := by
      intro n number xs hxs i hi
      obtain ⟨s, -, x, hx, -⟩ := getElem?_of_forall₂ hxs (List.getElem?_range hi)
      rw [hx]
      rfl
    obtain ⟨reported, hterms, -⟩ := h.objective
    obtain ⟨x, hx, -⟩ := h.futureCost
    refine ⟨hsome h.dualState, hsome h.nextState, hsome h.control, ?_, ?_⟩
    · intro y hy
      obtain ⟨k, hk⟩ := List.getElem?_of_mem hy
      obtain ⟨v, -, hv⟩ := getElem?_of_forall₂ hterms hk
      simp only [storedTerm, bind_eq_ok, storedValue_eq_ok_iff] at hv
      obtain ⟨w, hw, -⟩ := hv
      rw [hw]
      rfl
    · rw [hx]
      rfl
  · rintro ⟨hasDuals, hasNext, hasControl, hasObjective, hasFuture⟩
    have hall : ∀ {n : Nat} {number : Nat → Option (Reported S)},
        (∀ i < n, ∃ s, Reported.Reads (number i) s) →
          ∃ xs, List.Forall₂ (fun i => Reported.Reads (number i)) (List.range n) xs := by
      intro n number hnumber
      apply exists_forall₂_of_forall_mem
      intro i hi
      exact hnumber i (List.mem_range.mp hi)
    obtain ⟨duals, hduals⟩ := hall fun i hi => hreads (hread.duals i) (hasDuals i hi)
    obtain ⟨next, hnext⟩ := hall fun i hi => hvalue (hasNext i hi)
    obtain ⟨control, hcontrol⟩ := hall fun j hj => hvalue (hasControl j hj)
    obtain ⟨future, hfuture⟩ := hvalue hasFuture
    obtain ⟨reported, hreported⟩ := exists_forall₂_of_forall_mem fun t ht =>
      exists_storedTerm_of_isSome (t := t) (fun x hx => hasObjective x (hx ▸ ht)) hread.values
    have hterms : List.Forall₂ (fun t x => m.storedTerm t = .ok x) m.program.objective reported :=
      hreported.imp fun _ _ h => h.1
    have hnumbers : ∀ x ∈ reported, ∃ s : S, x.read = .ok s := by
      intro x hx
      obtain ⟨t, -, ht⟩ := exists_of_mem_forall₂ hreported hx
      exact ht.2
    obtain ⟨objective, hsum⟩ := Reported.exists_sum hnumbers (hread.wholes reported hterms)
    exact ⟨⟨next, control, duals, objective, future⟩, hduals, hnext, hcontrol,
      ⟨reported, hterms, hsum⟩, hfuture⟩

/-- Where arithmetic adds up, the objective of a step is that of the program at the point that the
model holds. -/
theorem Holds.objective_eq (h : Scalar.AddsUp S) {step : Step S} (hstep : m.Holds step)
    {point : Column → S}
    (hpoint : ∀ c x, m.stored.value? c = some x → x.read = .ok (point c)) :
    step.objective = m.program.value point := by
  obtain ⟨reported, hterms, hsum⟩ := hstep.objective
  have hread : List.Forall₂ (fun x s => x.read = .ok s) reported
      (m.program.objective.map (Term.eval m.program.noiseAt point)) := by
    refine List.forall₂_map_right_iff.mpr (hterms.flip.imp ?_)
    intro x t ht
    cases t with
    | weight y =>
        obtain rfl := Except.ok.inj ht
        rfl
    | multiple y =>
        simp only [storedTerm, bind_eq_ok, storedValue_eq_ok_iff] at ht
        obtain ⟨v, hv, ht⟩ := ht
        have hvalue := hpoint _ v hv
        cases y with
        | single s c =>
            dsimp only at ht
            split at ht
            · next hs =>
                obtain rfl := pure_eq_ok.mp ht
                rw [hvalue, Term.eval, Multiple.eval, h.one_mul s _ hs]
            · simp only [hvalue, ok_bind, pure_eq_ok] at ht
              subst ht
              rfl
        | weighted z c =>
            simp only [hvalue, ok_bind, pure_eq_ok] at ht
            subst ht
            rfl
        | scaled s z =>
            simp only [hvalue, ok_bind, pure_eq_ok] at ht
            subst ht
            rfl
        | times z k =>
            simp only [hvalue, ok_bind, pure_eq_ok] at ht
            subst ht
            rfl
  rw [h.sum reported _ hread] at hsum
  exact (Except.ok.inj hsum).symm

/-- A reply comes to a fault if the backend failed, or ended in a status that decides nothing, or
what the model holds does not make up a step. -/
theorem error_of_receive {r : Request S} {reply : Reply S}
    (h : (m.receive solver r reply).2.2 = .error e) :
    reply = .failed e ∨
      (∃ termination state noise,
        e = .endedWithoutOptimum m.program.stage termination state noise) ∨
      ∃ (m' : StageModel S) (termination : Option String), m'.Lacks solver termination e := by
  cases reply with
  | failed cause =>
      obtain rfl := Except.error.inj h
      exact .inl rfl
  | ended status termination stored =>
      simp only [receive, conclude] at h
      cases status with
      | infeasible => cases h
      | optimal =>
          dsimp only at h
          split at h
          · cases h
          · next e' hstored =>
              obtain rfl := Except.error.inj h
              exact .inr (.inr ⟨_, _, lacks_of_storedStep hstored⟩)
      | _ => exact .inr (.inl ⟨_, _, _, (Except.error.inj h).symm⟩)

end StageModel

end Bellman
