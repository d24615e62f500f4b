import Bellman.Parameters
import Bellman.Proofs.Attempt
import Bellman.Proofs.Double.Comparison

/-!
# The range of parameters

What is given for parameters passes the check field by field, and `Given.Passes` says what each
field has to be. The bound of rows that never bind is asked to be above zero; the tolerance and the
time limit are only refused if they are below zero or at most zero. Neither is true of a double that
is not a number, so that such a double passes as a tolerance and as a time limit. It is the only way
in which accepted parameters are out of range.
-/

namespace Bellman

open Data

theorem UpdateMode.keyword_mem (mode : UpdateMode) :
    mode.keyword ∈ ["REBUILD", "SLOT_REUSE"] := by
  cases mode <;> decide

/-- A mode is named by its keyword. -/
theorem UpdateMode.parse_keyword (mode : UpdateMode) : parse (.text mode.keyword) = .ok mode := by
  have hread : ((Text.trimmedKeyword mode.keyword).map fun c => if c = '-' then '_' else c) =
      mode.keyword := by
    cases mode <;> decide +kernel
  simp only [parse, hread]
  cases mode <;> rfl

theorem CutVariable.name_mem (choice : CutVariable) :
    choice.name ∈ ["next_state", "state"] := by
  cases choice <;> decide

namespace Parameters

/-- Parameters with which a stage solver can work. -/
structure InRange (p : Parameters) : Prop where
  updateMode : p.updateMode.keyword ∈ ["REBUILD", "SLOT_REUSE"]
  infinity : p.infinity.isPositive = true
  noiseTolerance : p.noiseTolerance.isNonnegative = true
  timeLimit : ∀ limit ∈ p.timeLimit, limit.isPositive = true
  cutVariable : p.cutVariable.name ∈ ["next_state", "state"]

namespace Given

/-- The bound of rows that never bind, as it is given. -/
def readInfinity (v : Value) : Except Fault Number := do
  let infinity ← v.compared ">"
  if infinity.isPositive then .ok infinity else .error (.nonpositiveInfinity infinity)

/-- The tolerance with which noises are matched, as it is given. -/
def readTolerance (v : Value) : Except Fault Number := do
  let tolerance ← v.compared "<"
  if tolerance.isNegative then .error (.negativeTolerance tolerance) else .ok tolerance

/-- The time limit, as it is given. -/
def readTimeLimit : Value → Except Fault (Option Number)
  | .null => .ok none
  | v => do
    let limit ← v.compared "<="
    if limit.isNonpositive then .error (.nonpositiveTimeLimit limit) else .ok (some limit)

/-- The variable that cuts are written over, as it is given. -/
def readCutVariable : Value → Except Fault CutVariable
  | .text s =>
    match CutVariable.ofName? s with
    | some choice => .ok choice
    | none => .error (.unknownCutVariable (.text s))
  | v => .error (.unknownCutVariable v)

theorem readTimeLimit_num (limit : Number) : readTimeLimit (.num limit) =
    if limit.isNonpositive then .error (.nonpositiveTimeLimit limit) else .ok (some limit) :=
  rfl

/-- The check reads one field after the other. -/
theorem check_eq (g : Given) : g.check = (do
    let updateMode ← UpdateMode.parse g.updateMode
    let infinity ← readInfinity g.infinity
    let noiseTolerance ← readTolerance g.noiseTolerance
    let timeLimit ← readTimeLimit g.timeLimit
    let cutVariable ← readCutVariable g.cutVariable
    return { g with timeLimit, updateMode, infinity, noiseTolerance, cutVariable }) := by
  unfold check
  refine bind_congr fun mode => ?_
  rw [readInfinity, bind_assoc]
  refine bind_congr fun infinity => ?_
  cases infinity.isPositive
  · rfl
  change _ = readTolerance g.noiseTolerance >>= _
  rw [readTolerance, bind_assoc]
  refine bind_congr fun tolerance => ?_
  cases tolerance.isNegative
  case true => rfl
  cases g.timeLimit with
  | num limit =>
      simp only [readTimeLimit_num, Value.compared, ok_bind]
      cases limit.isNonpositive
      case true => rfl
      cases g.cutVariable with
      | text s => cases hs : CutVariable.ofName? s <;> simp only [readCutVariable, hs] <;> rfl
      | _ => rfl
  | null =>
      cases g.cutVariable with
      | text s => cases hs : CutVariable.ofName? s <;> simp only [readCutVariable, hs] <;> rfl
      | _ => rfl
  | _ => rfl

theorem compared_eq_ok {relation : String} {v : Value} {n : Number} :
    v.compared relation = .ok n ↔ v = .num n := by
  cases v with
  | num m => simp only [Value.compared, Except.ok.injEq, Value.num.injEq]
  | _ => simp only [Value.compared, reduceCtorEq]

theorem readInfinity_eq_ok {v : Value} {n : Number} :
    readInfinity v = .ok n ↔ v = .num n ∧ n.isPositive = true := by
  simp only [readInfinity, bind_eq_ok, compared_eq_ok]
  constructor
  · rintro ⟨m, hm, h⟩
    split at h
    · next hpositive =>
        obtain rfl := Except.ok.inj h
        exact ⟨hm, hpositive⟩
    · cases h
  · rintro ⟨hn, hpositive⟩
    exact ⟨n, hn, if_pos hpositive⟩

theorem readTolerance_eq_ok {v : Value} {n : Number} :
    readTolerance v = .ok n ↔ v = .num n ∧ n.isNegative = false := by
  simp only [readTolerance, bind_eq_ok, compared_eq_ok]
  constructor
  · rintro ⟨m, hm, h⟩
    split at h
    · cases h
    · next hnegative =>
        obtain rfl := Except.ok.inj h
        exact ⟨hm, Bool.eq_false_iff.mpr hnegative⟩
  · rintro ⟨hn, hnegative⟩
    exact ⟨n, hn, if_neg (Bool.eq_false_iff.mp hnegative)⟩

theorem readTimeLimit_eq_ok {v : Value} {timeLimit : Option Number} :
    readTimeLimit v = .ok timeLimit ↔ v = (timeLimit.map Value.num).getD .null ∧
      ∀ limit ∈ timeLimit, limit.isNonpositive = false := by
  constructor
  · intro h
    cases v with
    | null =>
        obtain rfl := Except.ok.inj h
        exact ⟨rfl, nofun⟩
    | num n =>
        rw [readTimeLimit_num] at h
        split at h
        · cases h
        · next hlimit =>
            obtain rfl := Except.ok.inj h
            exact ⟨rfl, fun _ hmem => Option.mem_some.mp hmem ▸ Bool.eq_false_iff.mpr hlimit⟩
    | _ => cases h
  · rintro ⟨rfl, hlimit⟩
    cases timeLimit with
    | none => rfl
    | some limit => exact if_neg (Bool.eq_false_iff.mp (hlimit limit rfl))

theorem ofName?_eq_some {s : String} {choice : CutVariable} :
    CutVariable.ofName? s = some choice ↔ s = choice.name := by
  constructor
  · intro h
    have hfound := List.find?_some h
    exact (of_decide_eq_true hfound).symm
  · rintro rfl
    cases choice <;> rfl

theorem readCutVariable_eq_ok {v : Value} {choice : CutVariable} :
    readCutVariable v = .ok choice ↔ v = .text choice.name := by
  cases v with
  | text s =>
      rw [Value.text.injEq, ← ofName?_eq_some]
      simp only [readCutVariable]
      cases CutVariable.ofName? s with
      | some found => rw [Except.ok.injEq, Option.some.injEq]
      | none => exact iff_of_false nofun nofun
  | _ => exact iff_of_false nofun nofun

variable {g : Given} {p : Parameters}

/-- What is given passes the check as `p`. -/
structure Passes (g : Given) (p : Parameters) : Prop where
  updateMode : UpdateMode.parse g.updateMode = .ok p.updateMode
  infinity : g.infinity = .num p.infinity ∧ p.infinity.isPositive = true
  noiseTolerance : g.noiseTolerance = .num p.noiseTolerance ∧ p.noiseTolerance.isNegative = false
  timeLimit : g.timeLimit = (p.timeLimit.map Value.num).getD .null ∧
    ∀ limit ∈ p.timeLimit, limit.isNonpositive = false
  cutVariable : g.cutVariable = .text p.cutVariable.name
  solver : g.solver = p.solver
  executable : g.executable = p.executable
  options : g.options = p.options
  verbose : g.verbose = p.verbose
  alphaLowerBound : g.alphaLowerBound = p.alphaLowerBound
  logLevel : g.logLevel = p.logLevel

theorem check_eq_ok : g.check = .ok p ↔ g.Passes p := by
  simp only [check_eq, bind_eq_ok, pure_eq_ok, readInfinity_eq_ok, readTolerance_eq_ok,
    readTimeLimit_eq_ok, readCutVariable_eq_ok]
  constructor
  · rintro ⟨_, hmode, _, hinfinity, _, htolerance, _, hlimit, _, hcut, rfl⟩
    exact ⟨hmode, hinfinity, htolerance, hlimit, hcut, rfl, rfl, rfl, rfl, rfl, rfl⟩
  · intro h
    refine ⟨_, h.updateMode, _, h.infinity, _, h.noiseTolerance, _, h.timeLimit, _,
      h.cutVariable, ?_⟩
    rw [h.solver, h.executable, h.options, h.verbose, h.alphaLowerBound, h.logLevel]

/-- What a mapping gives, each field in the kind it holds. -/
def ofMapping (raw : Value) : Except Fault Given := do
  ofEntries (← raw.toEntries)

end Given

variable {raw : Value} {p : Parameters}

/-- A mapping is accepted exactly if what it gives passes. -/
theorem ofMapping_eq_ok :
    ofMapping raw = .ok p ↔ ∃ g, Given.ofMapping raw = .ok g ∧ g.Passes p := by
  simp only [ofMapping, Given.ofMapping, bind_eq_ok, Given.check_eq_ok]
  constructor
  · rintro ⟨entries, hentries, g, hg, hpasses⟩
    exact ⟨g, ⟨entries, hentries, hg⟩, hpasses⟩
  · rintro ⟨g, ⟨entries, hentries, hg⟩, hpasses⟩
    exact ⟨entries, hentries, g, hg, hpasses⟩

/-- What is left out passes as its default. -/
theorem Given.passes_default : Given.Passes {} .default where
  updateMode := rfl
  infinity := ⟨rfl, rfl⟩
  noiseTolerance := ⟨rfl, rfl⟩
  timeLimit := ⟨rfl, nofun⟩
  cutVariable := rfl
  solver := rfl
  executable := rfl
  options := rfl
  verbose := rfl
  alphaLowerBound := rfl
  logLevel := rfl

theorem ofMapping_of_isTrue_eq_false (h : raw.isTrue = false) : ofMapping raw = .ok .default := by
  refine ofMapping_eq_ok.mpr ⟨{}, ?_, Given.passes_default⟩
  have hentries : raw.toEntries = .ok [] := by
    unfold Value.toEntries
    rw [h]
    rfl
  rw [Given.ofMapping, hentries]
  rfl

/-- Parameters that passed are in range, but for what is not a number. -/
theorem Given.Passes.inRange_iff {g : Given} (h : g.Passes p) :
    p.InRange ↔ p.noiseTolerance.isNaN = false ∧ ∀ limit ∈ p.timeLimit, limit.isNaN = false := by
  constructor
  · intro hrange
    refine ⟨(Number.isNonnegative_iff.mp hrange.noiseTolerance).2, ?_⟩
    intro limit hlimit
    exact (Number.isPositive_iff.mp (hrange.timeLimit limit hlimit)).2
  · rintro ⟨htolerance, hlimits⟩
    refine ⟨p.updateMode.keyword_mem, h.infinity.2, ?_, ?_, p.cutVariable.name_mem⟩
    · exact Number.isNonnegative_iff.mpr ⟨h.noiseTolerance.2, htolerance⟩
    · intro limit hlimit
      exact Number.isPositive_iff.mpr ⟨h.timeLimit.2 limit hlimit, hlimits limit hlimit⟩

/-- What a mapping is accepted as is in range, but for a tolerance or a time limit that is not a
number, and a mapping is refused exactly if what it gives does not pass. -/
theorem inRange_ofMapping (raw : Value) :
    (∀ p, ofMapping raw = .ok p →
      p.updateMode.keyword ∈ ["REBUILD", "SLOT_REUSE"] ∧
      p.cutVariable.name ∈ ["next_state", "state"] ∧
      p.infinity.isPositive = true ∧
      (p.InRange ↔
        p.noiseTolerance.isNaN = false ∧ ∀ limit ∈ p.timeLimit, limit.isNaN = false)) ∧
    ((∃ fault, ofMapping raw = .error fault) ↔
      ∀ g p, Given.ofMapping raw = .ok g → ¬ g.Passes p) := by
  constructor
  · intro p h
    obtain ⟨g, -, hpasses⟩ := ofMapping_eq_ok.mp h
    exact ⟨p.updateMode.keyword_mem, p.cutVariable.name_mem, hpasses.infinity.2,
      hpasses.inRange_iff⟩
  · constructor
    · rintro ⟨fault, hfault⟩ g p hg hpasses
      have hok := ofMapping_eq_ok.mpr ⟨g, hg, hpasses⟩
      rw [hfault] at hok
      cases hok
    · intro h
      cases hp : ofMapping raw with
      | error fault => exact ⟨fault, rfl⟩
      | ok p =>
          obtain ⟨g, hg, hpasses⟩ := ofMapping_eq_ok.mp hp
          exact absurd hpasses (h g p hg)

end Parameters

namespace Stock

open Parameters

/-- Parameters as a document may hold them, one of them as a text and one unknown. -/
def fields : Value :=
  .map [(.text "update_mode", .text "slot-reuse"), (.text "infinity", .text "1e20"),
    (.text "time_limit_s", .int 30), (.text "cut_variable", .text "state"),
    (.text "threads", .int 4)]

/-- A tolerance that is not a number. -/
def fieldsWithoutTolerance : Value :=
  .map [(.text "noise_tolerance", .text "nan")]

theorem inRange_fields : ∃ p, ofMapping fields = .ok p ∧ p.InRange := by
  have hnumbers : (ofMapping fields).toOption.any (fun p =>
      !p.noiseTolerance.isNaN && p.timeLimit.all (!·.isNaN)) = true := by
    decide +kernel
  obtain ⟨p, hp, hnumbers⟩ := exists_of_any hnumbers
  obtain ⟨-, -, -, hrange⟩ := (inRange_ofMapping fields).1 p hp
  refine ⟨p, hp, hrange.mpr ?_⟩
  simp only [Bool.and_eq_true, Bool.not_eq_true', Option.all_eq_true] at hnumbers
  exact hnumbers

/-- A tolerance that is not a number is accepted, although it is not at least zero. -/
theorem tolerance_notANumber : ∃ p, ofMapping fieldsWithoutTolerance = .ok p ∧ ¬ p.InRange := by
  have htolerance : (ofMapping fieldsWithoutTolerance).toOption.any
      (fun p => !p.noiseTolerance.isNonnegative) = true := by
    decide +kernel
  obtain ⟨p, hp, htolerance⟩ := exists_of_any htolerance
  refine ⟨p, hp, fun hrange => ?_⟩
  rw [hrange.noiseTolerance] at htolerance
  cases htolerance

end Stock

end Bellman
