import Bellman.Proofs.NoiseLaw
import Bellman.Proofs.Program.Slots
import Bellman.Proofs.Session.Complete
import Bellman.Proofs.Session.CutRows

/-!
# Solving a stage for all values of its noise

A session solves a stage for the values of its noise one after the other, in the order of the
support. Each value is given together with its index. Where the noise is a variable, the index does
not matter and every value is solved for. Where there are slots, the value is looked up again, and
the index has to be the one that is found, which is the first of a value that is close.

So if two values of the support are close to each other, the later one is found in the place of the
earlier one, and the calls end with a fault.
-/

namespace Bellman

open Data

variable {S : Type}

/-- Whether a slot has the rows that a problem gives for a value of the noise. -/
structure NoiseSlot.IsFor (problem : Problem S) (stage : Int) (value : List S)
    (slot : NoiseSlot S) : Prop where
  dynamics : problem.dynamics stage (.values value) = .ok slot.dynamics
  equalities : problem.equalities stage (.values value) = .ok slot.equalities
  inequalities : problem.inequalities stage (.values value) = .ok slot.inequalities
  pieces : ∃ model pieces, problem.costPieces = .ok (model, pieces) ∧
    pieces.mapM (fun piece => piece stage (.values value)) = .ok slot.pieces

/-- The request for the `k`-th value of a noise. -/
def Setup.scenario (setup : Setup S) (state : List S) (k : Nat) (value : List S) : Request S where
  state
  noise := value
  index :=
    match setup.params.updateMode with
    | .rebuild => none
    | .slotReuse => some (.whole k)

theorem Setup.isIndexed_scenario (setup : Setup S) (state : List S) (k : Nat) (value : List S) :
    (setup.scenario state k value).IsIndexed := by
  unfold Request.IsIndexed Setup.scenario
  cases setup.params.updateMode with
  | rebuild => exact fun _ h => by cases h
  | slotReuse =>
      rintro _ ⟨⟩
      exact Option.some_ne_none _

/-- Whether a program is about the `k`-th value of the noise: the noise variables are fixed to the
value, or the slot of the value is the only one that is live. -/
structure StageProgram.Poses [Zero S] [Neg S] (setup : Setup S) (stage : Int) (k : Nat)
    (value : List S) (q : StageProgram S) : Prop where
  rebuild : setup.params.updateMode = .rebuild → (∃ rows, q.body = .direct rows) ∧ q.noise = value
  slotReuse : setup.params.updateMode = .slotReuse → q.live = some k ∧ q.HoldsOneSlot ∧
    ∃ slot, q.slots[k]? = some slot ∧ slot.IsFor setup.problem stage value

section Programs

variable [Scalar S] [Zero S] [Neg S] {setup : Setup S} {stage : Int} {law : NoiseLaw S}
variable {state value : List S} {k : Nat} {q : StageProgram S}

/-- A program that is targeted to the request for a value is about that value. -/
theorem StageProgram.IsAimed.poses (h : q.IsAimed setup stage (setup.scenario state k value))
    (hlaw : setup.problem.law stage = .ok law) (hvalue : law.support[k]? = some value) :
    q.Poses setup stage k value := by
  obtain ⟨_, model, parts, cuts, hq⟩ := h
  constructor
  · intro hmode
    obtain ⟨rows, hrows, -⟩ := parts.exists_rows hmode
    simp only [aimed, Setup.scenario, hmode, Except.ok.injEq] at hq
    rw [← hq]
    exact ⟨⟨rows, hrows⟩, rfl⟩
  · intro hmode
    obtain ⟨law', slots, hlaw', hslots, built⟩ := parts.exists_slots hmode
    obtain rfl := Except.ok.inj (hlaw.symm.trans hlaw')
    simp only [aimed, Setup.scenario, hmode] at hq
    obtain ⟨hk, -, rfl⟩ := activate_natCast_eq_ok_iff.mp hq
    have htoggles : (parts.program cuts).Toggles
        (((parts.program cuts).setState state).switchOn k) :=
      .live _ _ k hk
    have hrest := parts.isAtRest_program cuts
    refine ⟨live_switchOn _ k,
      htoggles.holdsOneSlot hrest.live fun slot hslot => (parts.slot_of_mem hslot).1, ?_⟩
    obtain ⟨slot, hslot, hbuilt⟩ := getElem?_of_forall₂ built hvalue
    have hall : ((parts.program cuts).setState state).slots = slots := slots_of_slotted hslots
    refine ⟨{ slot with sides := slot.sides.live }, ?_, hbuilt.dynamics, hbuilt.equalities,
      hbuilt.inequalities, model, parts.pieces, parts.costPieces_eq, hbuilt.pieces⟩
    rw [slots_switchOn, hall, List.getElem?_modify, hslot]
    simp only [if_true, Option.map_eq_map, Option.map_some]

end Programs

variable [Scalar S] [Zero S] [One S] [Neg S] [Add S] [Sub S] [Mul S]
variable [LE S] [DecidableLE S] [LT S] [DecidableLT S]

/-- A stage of an accepted problem with an accepted noise law. Its values are read back as they are
written and compare with themselves, and the tolerance with which they are matched is a scalar that
is not negative. -/
structure Setup.HasScenarios (setup : Setup S) (stage : Int) (law : NoiseLaw S) (limit : S) :
    Prop where
  problem : ∃ d : Declaration S, d.check = .ok setup.problem
  law_eq : setup.problem.law stage = .ok law
  accepted : ∃ probabilities, NoiseLaw.of law.support probabilities = .ok law
  finite : ∀ value ∈ law.support, ∀ x ∈ value, Scalar.read (Scalar.write x) = .ok x ∧ x ≤ x
  tolerance : Scalar.read (.num setup.params.noiseTolerance) = .ok limit
  nonneg : ¬ limit < 0
  zero : ¬ (0 : S) < 0

/-- A call whose state can be read and whose stage can be built, with a backend that can be set up
and answers conclusively. -/
structure Setup.Answers (setup : Setup S) (stage : Int) (state : Value) (f : NamedFunction S)
    (xs : List S) : Prop where
  state : Scalar.readVector "state" (.num setup.problem.states) state = .ok xs
  build : ∃ built, StageProgram.build setup.problem setup.params stage f.function = .ok built
  refusal : setup.backend.refusal = none
  replies : ∀ asked p, (setup.backend.reply asked p).IsConclusive p

variable {setup : Setup S} {s : Session S} {stage : Int} {law : NoiseLaw S} {limit : S}
variable {state : Value} {f : NamedFunction S} {xs value : List S} {k : Nat}

/-- Whether a value of the noise is found by its index, or need not be found. -/
def Setup.IsFound (setup : Setup S) (law : NoiseLaw S) (limit : S) (k : Nat) (value : List S) :
    Prop :=
  setup.params.updateMode = .rebuild ∨
    ∀ j < k, ∀ other, law.support[j]? = some other → areClose limit other value = false

omit [Scalar S] [One S] [Neg S] [Add S] [Mul S] [LT S] [DecidableLT S] in
/-- All values are found exactly if they need not be, or no two of them are close. -/
theorem Setup.forall_isFound_iff :
    (∀ (k : Nat) (value : List S), law.support[k]? = some value →
      setup.IsFound law limit k value) ↔
    setup.params.updateMode = .rebuild ∨
      law.support.Pairwise fun value other => areClose limit value other = false := by
  by_cases hmode : setup.params.updateMode = .rebuild
  · exact iff_of_true (fun _ _ _ => .inl hmode) (.inl hmode)
  · simp only [IsFound, hmode, false_or, List.pairwise_iff_getElem]
    constructor
    · intro h j k hj hk hjk
      exact h k _ (List.getElem?_eq_getElem hk) j hjk _ (List.getElem?_eq_getElem hj)
    · intro h k value hvalue j hjk other hother
      obtain ⟨hk, rfl⟩ := List.getElem?_eq_some_iff.mp hvalue
      obtain ⟨hj, rfl⟩ := List.getElem?_eq_some_iff.mp hother
      exact h j k hj hk hjk

namespace Session

omit [One S] [Neg S] [Add S] [Mul S] in
/-- The place where a value of the noise is found. -/
theorem noiseIndex_scenario (h : setup.HasScenarios stage law limit)
    (hvalue : law.support[k]? = some value) :
    ∃ i, noiseIndex setup stage value (.int k) =
        (if i = k then .ok (.whole k)
          else .error (.noiseIndexMismatch (Scalar.writeVector value) (.whole k) stage)) ∧
      (i = k ↔
        ∀ j < k, ∀ other, law.support[j]? = some other → areClose limit other value = false) := by
  obtain ⟨probabilities, haccepted⟩ := h.accepted
  have hmem := List.mem_of_getElem? hvalue
  obtain ⟨i, hindex, hiff⟩ := NoiseLaw.exists_indexOf h.tolerance h.nonneg h.zero
    (NoiseLaw.length_of_of haccepted) hvalue fun x hx => (h.finite value hmem x hx).2
  refine ⟨i, ?_, hiff⟩
  have hrange : (Number.whole k).isInRange law.size = true := by
    have hk : k < law.size := (List.getElem?_eq_some_iff.mp hvalue).1
    exact (Number.isInRange_iff rfl).mpr ⟨Int.natCast_nonneg k, Int.ofNat_lt.mpr hk⟩
  simp only [noiseIndex, h.law_eq, ok_bind, hrange, hindex, Bool.not_true,
    Bool.false_eq_true, if_false, Number.sameValue_whole (n := .whole k) rfl]
  by_cases hi : i = k
  · simp only [hi, decide_true, Bool.not_true, Bool.false_eq_true, if_false, if_true]
    rfl
  · have hne : ¬ (k : Int) = i := fun h => hi (Int.ofNat_inj.mp h).symm
    simp only [hi, hne, decide_false, Bool.not_false, if_true, if_false]
    rfl

omit [One S] [Neg S] [Add S] [Mul S] in
/-- What a call for a value of the noise is read as: the request for it if it is found, and else a
fault. -/
theorem readRequest_scenario (h : setup.HasScenarios stage law limit)
    (hstate : Scalar.readVector "state" (.num setup.problem.states) state = .ok xs)
    (hvalue : law.support[k]? = some value) :
    (setup.IsFound law limit k value → readRequest setup stage state (Scalar.writeVector value)
      (.int k) = .ok (setup.scenario xs k value)) ∧
    (¬ setup.IsFound law limit k value → ∃ e, readRequest setup stage state
      (Scalar.writeVector value) (.int k) = .error e) := by
  obtain ⟨probabilities, haccepted⟩ := h.accepted
  obtain ⟨d, hd⟩ := h.problem
  have hmem := List.mem_of_getElem? hvalue
  have hcount : (Value.num setup.problem.noises).isCount value.length = true := by
    rw [NoiseLaw.length_of_of haccepted value hmem]
    exact (d.dimensions_of_check hd).2.2 law (Problem.mem_laws h.law_eq)
  have hnoise : Scalar.readVector "noise" (.num setup.problem.noises) (Scalar.writeVector value) =
      .ok value :=
    Scalar.readVector_writeVector (fun x hx => (h.finite value hmem x hx).1) hcount
  cases hmode : setup.params.updateMode with
  | rebuild =>
      constructor
      · intro
        simp only [readRequest, hstate, hnoise, ok_bind, hmode, Setup.scenario]
        rfl
      · intro hnot
        exact absurd (.inl hmode) hnot
  | slotReuse =>
      have hfound : setup.IsFound law limit k value ↔
          ∀ j < k, ∀ other, law.support[j]? = some other → areClose limit other value = false :=
        or_iff_right (by rw [hmode]; exact UpdateMode.noConfusion)
      obtain ⟨i, hindex, hiff⟩ := noiseIndex_scenario h hvalue
      rw [hfound, ← hiff]
      simp only [readRequest, hstate, hnoise, ok_bind, hmode, hindex, Setup.scenario]
      constructor
      · intro hi
        simp only [hi, if_true]
        rfl
      · intro hi
        simp only [hi, if_false]
        exact ⟨_, rfl⟩

/-- A call that can be served puts its request to the backend. -/
theorem IsSound.asks_of_servable {c : Call S} (h : s.IsSound setup) (hservable : Servable setup c) :
    ∃ r m, readRequest setup c.stage c.state c.noise c.index = .ok r ∧
      s.Asks setup c.stage r (s.solve setup c.stage c.state c.noise c.function c.index) m := by
  obtain ⟨q, hsyncs⟩ := h.exists_hands hservable
  rcases (h.asks_or_idle c).2 with ⟨-, hidle⟩ | hasks
  · rw [hsyncs.asked] at hidle
    cases List.append_right_eq_self.mp hidle
  · exact hasks

/-- The outcome of a program that was handed to the backend for a value of the noise, after others
were. -/
structure Solves (setup : Setup S) (stage : Int) (state : List S) (k : Nat) (value : List S)
    (asked : List (StageProgram S)) (q : StageProgram S) (o : Outcome S) : Prop where
  aimed : q.IsAimed setup stage (setup.scenario state k value)
  outcome : ∃ m : StageModel S, m.program = q ∧
    (m.receive setup.params.solver.display (setup.scenario state k value)
      (setup.backend.reply asked q)).2.2 = .ok o

/-- A call that is read as the request for a value is solved for it. -/
theorem IsSound.solves (h : s.IsSound setup) (hanswers : setup.Answers stage state f xs)
    (hread : readRequest setup stage state (Scalar.writeVector value) (.int k) =
      .ok (setup.scenario xs k value)) :
    ∃ s' q o,
      s.solve setup stage state (Scalar.writeVector value) f (.int k) = (s', .ok o) ∧
      s'.IsSound setup ∧ s'.asked = s.asked ++ [q] ∧
      Solves setup stage xs k value s.asked q o := by
  let c : Call S := ⟨stage, state, Scalar.writeVector value, f, .int k⟩
  have hservable : Servable setup c := by
    refine ⟨⟨⟨_, hread⟩, hanswers.build, hanswers.refusal⟩, fun r hr => ?_⟩
    obtain rfl := Except.ok.inj (hread.symm.trans hr)
    exact setup.isIndexed_scenario xs k value
  obtain ⟨r, m, hr, hasks⟩ := h.asks_of_servable hservable
  obtain rfl := Except.ok.inj (hread.symm.trans hr)
  obtain ⟨o, ho⟩ := StageModel.exists_receive (hanswers.replies s.asked m.program)
    setup.params.solver.display (setup.scenario xs k value)
  refine ⟨_, m.program, o, Prod.ext rfl (hasks.outcome.trans ho), (h.solve c).1, hasks.asked,
    hasks.aimed, m, rfl, ho⟩

/-- If all values are read as the requests for them, all are solved for, in order. -/
theorem IsSound.solveEach_of_forall (h : s.IsSound setup) (rest : List (List S))
    (hanswers : setup.Answers stage state f xs)
    (hread : ∀ (i : Nat) (value : List S), rest[i]? = some value →
      readRequest setup stage state (Scalar.writeVector value) (.int (k + i : Nat)) =
        .ok (setup.scenario xs (k + i) value)) :
    ∃ s' outcomes programs, s.solveEach setup stage state f k rest = (s', .ok outcomes) ∧
      s'.asked = s.asked ++ programs ∧ outcomes.length = rest.length ∧
      programs.length = rest.length ∧
      ∀ (i : Nat) (value : List S), rest[i]? = some value → ∃ q o, programs[i]? = some q ∧
        outcomes[i]? = some o ∧
        Solves setup stage xs (k + i) value (s.asked ++ programs.take i) q o := by
  induction rest generalizing s k with
  | nil =>
      refine ⟨s, [], [], rfl, (List.append_nil _).symm, rfl, rfl, ?_⟩
      intro i value hi
      cases hi
  | cons first rest ih =>
      obtain ⟨s₁, q, o, hsolve, hsound, hasked, hsolves⟩ := h.solves hanswers (hread 0 first rfl)
      have hread' : ∀ (i : Nat) (value : List S), rest[i]? = some value →
          readRequest setup stage state (Scalar.writeVector value)
            (.int (k + 1 + i : Nat)) = .ok (setup.scenario xs (k + 1 + i) value) := by
        intro i value hi
        rw [Nat.add_right_comm]
        exact hread (i + 1) value hi
      obtain ⟨s₂, outcomes, programs, heach, hasked', houtcomes, hprograms, hrest⟩ :=
        ih hsound hread'
      refine ⟨s₂, o :: outcomes, q :: programs, ?_, ?_, congrArg Nat.succ houtcomes,
        congrArg Nat.succ hprograms, ?_⟩
      · simp only [Session.solveEach, Nat.add_zero] at hsolve ⊢
        simp only [hsolve, heach]
      · rw [hasked', hasked, List.append_assoc, List.singleton_append]
      · intro i value hi
        cases i with
        | zero =>
            obtain rfl := Option.some.inj hi
            refine ⟨q, o, rfl, rfl, ?_⟩
            rw [List.take_zero, List.append_nil]
            exact hsolves
        | succ i =>
            obtain ⟨q', o', hq', ho', hsolves'⟩ := hrest i value hi
            refine ⟨q', o', hq', ho', ?_⟩
            rw [hasked, List.append_assoc, List.singleton_append, Nat.add_right_comm] at hsolves'
            exact hsolves'

/-- If one of the values cannot be read, the calls end with a fault. -/
theorem exists_solveEach_error {rest : List (List S)} {i : Nat} {e : Fault}
    (hi : rest[i]? = some value)
    (hread : readRequest setup stage state (Scalar.writeVector value) (.int (k + i : Nat)) =
      .error e) :
    ∃ e', (s.solveEach setup stage state f k rest).2 = .error e' := by
  induction rest generalizing s k i with
  | nil => cases hi
  | cons first rest ih =>
      cases i with
      | zero =>
          obtain rfl := Option.some.inj hi
          refine ⟨e, ?_⟩
          rw [Nat.add_zero] at hread
          simp only [solveEach, solve, hread]
      | succ i =>
          have hrest : ∀ s' : Session S,
              ∃ e', (s'.solveEach setup stage state f (k + 1) rest).2 = .error e' :=
            fun s' => ih hi (by rw [Nat.add_right_comm]; exact hread)
          simp only [solveEach]
          split
          · next e' _ => exact ⟨e', rfl⟩
          · next s' o _ =>
              obtain ⟨e', he'⟩ := hrest s'
              refine ⟨e', ?_⟩
              split
              · next heach =>
                  rw [heach] at he'
                  exact he'
              · next heach =>
                  rw [heach] at he'
                  cases he'

/-- Whether the calls for all values of a noise end with one outcome for each of them, in order:
the `k`-th one is concluded from the reply to a program that is about the `k`-th value. -/
def Covers (setup : Setup S) (s : Session S) (stage : Int) (state : List S) (law : NoiseLaw S)
    (after : Session S × Except Fault (List (Outcome S))) : Prop :=
  ∃ outcomes programs, after.2 = .ok outcomes ∧ after.1.asked = s.asked ++ programs ∧
    outcomes.length = law.size ∧ programs.length = law.size ∧
    ∀ (k : Nat) (value : List S), law.support[k]? = some value → ∃ q o,
      programs[k]? = some q ∧ outcomes[k]? = some o ∧ q.Poses setup stage k value ∧
      Solves setup stage state k value (s.asked ++ programs.take k) q o

/-- When all values of a noise are covered. Whatever a session has done before, if the backend
answers conclusively, a stage is solved for all values of its noise in order exactly if the noise is
a variable or no two values of the support are close to each other. -/
theorem covers_solveScenarios_iff (calls : List (Call S))
    (hscenarios : setup.HasScenarios stage law limit)
    (hanswers : setup.Answers stage state f xs) :
    Covers setup (({} : Session S).run setup calls) stage xs law
        ((({} : Session S).run setup calls).solveScenarios setup stage state f) ↔
      setup.params.updateMode = .rebuild ∨
        law.support.Pairwise fun value other => areClose limit value other = false := by
  have hsolve : (({} : Session S).run setup calls).solveScenarios setup stage state f =
      (({} : Session S).run setup calls).solveEach setup stage state f 0 law.support := by
    simp only [solveScenarios, hscenarios.law_eq]
  rw [← Setup.forall_isFound_iff, hsolve]
  constructor
  · rintro ⟨outcomes, programs, hok, -⟩ k value hvalue
    by_contra hnot
    obtain ⟨e, he⟩ := (readRequest_scenario hscenarios hanswers.state hvalue).2 hnot
    obtain ⟨e', he'⟩ := exists_solveEach_error (s := ({} : Session S).run setup calls) (f := f)
      (k := 0) hvalue (by rw [Nat.zero_add]; exact he)
    rw [hok] at he'
    cases he'
  · intro hall
    have hread : ∀ (i : Nat) (value : List S), law.support[i]? = some value →
        readRequest setup stage state (Scalar.writeVector value) (.int (0 + i : Nat)) =
          .ok (setup.scenario xs (0 + i) value) := by
      intro i value hi
      rw [Nat.zero_add]
      exact (readRequest_scenario hscenarios hanswers.state hi).1 (hall i value hi)
    obtain ⟨s', outcomes, programs, heach, hasked, houtcomes, hprograms, hsolves⟩ :=
      (isSound_run setup calls).solveEach_of_forall law.support hanswers hread
    rw [heach]
    refine ⟨outcomes, programs, rfl, hasked, houtcomes, hprograms, ?_⟩
    intro k value hvalue
    obtain ⟨q, o, hq, ho, hsolved⟩ := hsolves k value hvalue
    rw [Nat.zero_add] at hsolved
    exact ⟨q, o, hq, ho, hsolved.aimed.poses hscenarios.law_eq hvalue, hsolved⟩

end Session

namespace Stock

/-- Two demands, of which the first one is certain. -/
def pair (a b : ℚ) : NoiseLaw ℚ :=
  ⟨[[a], [b]], [.whole 1, .whole 0]⟩

/-- The stock with a slot for each of two demands, and a backend that finds no solution at first and
then always zeros. -/
def twoSlots (a b : ℚ) : Setup ℚ :=
  ⟨{ problem .linear with laws := some [pair a b] }, params .slotReuse,
    { reply asked p :=
        if asked.isEmpty then .ended .infeasible none none
        else .ended .optimal none (some (zeros p)) }⟩

theorem of_pair (a b : ℚ) : NoiseLaw.of (pair a b).support [.int 1, .int 0] = .ok (pair a b) := by
  have hsorted : [1, 1].mergeSort (fun m n : Nat => decide (m ≤ n)) = [1, 1] :=
    List.mergeSort_of_pairwise (by decide)
  have hdims : NoiseLaw.distinct [1, 1] = [1] := by
    rw [NoiseLaw.distinct, hsorted]
    rfl
  have hread : NoiseLaw.readProbabilities [.int 1, .int 0] = .ok [.whole 1, .whole 0] := rfl
  have hwhole : NoiseLaw.sumNumbers [.whole 1, .whole 0] = .ok (.whole 1) := rfl
  have hsum : Number.toFloat (.whole 1) = .ok 1 := by with_unfolding_all rfl
  have hclose : ¬ NoiseLaw.sumTolerance < ((1 : Float) - 1.0).abs := by decide
  simp [NoiseLaw.of, pair, hdims, hread, hwhole, hsum, hclose]

/-- A rational number is read back as it was written if it is the value of the closest double. -/
theorem read_write {a : ℚ} (h : Decimal.toRat? (Decimal.ofRat a) = some a) :
    (Scalar.read (Scalar.write a) : Except Fault ℚ) = .ok a := by
  change Number.toExact (.real (Decimal.ofRat a)) = .ok a
  have hfloat : Number.toFloat (.real (Decimal.ofRat a)) = .ok (Decimal.ofRat a) := rfl
  simp only [Number.toExact, Number.toInt?, hfloat, ok_bind, h]

theorem hasScenarios_twoSlots {a b : ℚ} (ha : Decimal.toRat? (Decimal.ofRat a) = some a)
    (hb : Decimal.toRat? (Decimal.ofRat b) = some b) :
    (twoSlots a b).HasScenarios 0 (pair a b) 0 where
  problem := ⟨{ declaration .linear with laws := some [pair a b] }, rfl⟩
  law_eq := rfl
  accepted := ⟨_, of_pair a b⟩
  finite := by
    simp [pair, read_write ha, read_write hb]
  tolerance := rfl
  nonneg := lt_irrefl 0
  zero := lt_irrefl 0

theorem answers_twoSlots {a b : ℚ} :
    (twoSlots a b).Answers 0 (.list [.int 2]) ⟨0, future⟩ [2] where
  state := rfl
  build := ⟨_, rfl⟩
  refusal := rfl
  replies asked p := by
    simp only [twoSlots]
    split
    · trivial
    · exact ⟨zeros p, rfl, isComplete_zeros p⟩

/-- Both demands are solved for when they are one and three, also after a solve for the second one.
-/
theorem covers_apart :
    Session.Covers (twoSlots 1 3) (({} : Session ℚ).run (twoSlots 1 3) [call 2 3 [] .null]) 0 [2]
      (pair 1 3) ((({} : Session ℚ).run (twoSlots 1 3) [call 2 3 [] .null]).solveScenarios
        (twoSlots 1 3) 0 (.list [.int 2]) ⟨0, future⟩) := by
  refine (Session.covers_solveScenarios_iff [call 2 3 [] .null]
    (hasScenarios_twoSlots (by decide +kernel) (by decide +kernel)) answers_twoSlots).mpr (.inr ?_)
  have hfar : areClose (0 : ℚ) [1] [3] = false := by decide +kernel
  simpa [pair] using hfar

/-- If both demands are one, the second one is found in the place of the first, and the calls end
with a fault. -/
theorem scenario_repeated :
    (twoSlots 1 1).HasScenarios 0 (pair 1 1) 0 ∧
      (twoSlots 1 1).Answers 0 (.list [.int 2]) ⟨0, future⟩ [2] ∧
      ∃ e, (({} : Session ℚ).solveScenarios (twoSlots 1 1) 0 (.list [.int 2])
        ⟨0, future⟩).2 = .error e := by
  have hscenarios : (twoSlots 1 1).HasScenarios 0 (pair 1 1) 0 :=
    hasScenarios_twoSlots (by decide +kernel) (by decide +kernel)
  have hsecond : (pair 1 1).support[1]? = some [1] := rfl
  have hclose : areClose (0 : ℚ) [1] [1] = true := by decide +kernel
  have hlost : ¬ (twoSlots 1 1).IsFound (pair 1 1) 0 1 [1] := by
    rintro (hmode | hfar)
    · cases hmode
    · rw [hfar 0 Nat.zero_lt_one [1] rfl] at hclose
      cases hclose
  obtain ⟨e, he⟩ := (Session.readRequest_scenario hscenarios answers_twoSlots.state hsecond).2 hlost
  exact ⟨hscenarios, answers_twoSlots, Session.exists_solveEach_error (k := 0) hsecond he⟩

end Stock

end Bellman
