import Bellman.Fault.Family
import Bellman.Proofs.Session.Conclusion
import Bellman.Proofs.Session.Course

/-!
# Outcomes are faithful to the backend

The outcome of a call that comes to the backend is decided by the reply alone, whatever the session
has done before: no feasible step exactly for an infeasible status, a step exactly for an optimal
one with a readable number for everything that a step has, and a fault that says how the solve ended
otherwise. The step is the one that the model holds after the call. Along the way the model counts
the replies that it has had since it was built.

`Reflects` collects what that means for one call, and `reflects_run` proves it for every call of
every run.
-/

namespace Bellman

open Data

variable {S : Type}

/-- Whether the backend ended, rather than failed. -/
def Reply.isEnded : Reply S → Bool
  | .ended .. => true
  | .failed _ => false

variable [Scalar S] [Zero S] [One S] [Neg S]

namespace StageProgram

variable {setup : Setup S} {stage : Int} {q : StageProgram S} {r : Request S}

omit [Zero S] [Scalar S] in
theorem dimStates_released (q : StageProgram S) (r : Request S) :
    (q.released r).dimStates = q.dimStates := by
  obtain ⟨_, _, hq, -⟩ := q.exists_released_eq r
  rw [hq]
  rfl

omit [Scalar S] in
theorem value_released [Add S] [Mul S] (q : StageProgram S) (r : Request S) (point : Column → S) :
    (q.released r).value point = q.value point := by
  obtain ⟨_, _, hq, hcost⟩ := q.exists_released_eq r
  rw [hq]
  simp only [value, objective, hcost]
  rfl

theorem IsAimed.stage_eq (h : q.IsAimed setup stage r) : q.stage = stage := by
  obtain ⟨_, _, parts, cuts, hq⟩ := h
  obtain ⟨_, _, _, rfl, -⟩ := exists_aimed_eq hq
  rfl

end StageProgram

variable [Add S] [Mul S] [LE S] [DecidableLE S]

namespace StageModel

variable {m m' : StageModel S} {solver : String} {termination : Option String} {r : Request S}

/-- Releasing a request does not change the step that a model holds. -/
theorem storedStep_of_released (hprogram : m'.program = m.program.released r)
    (hstored : m'.stored = m.stored) :
    m'.storedStep solver termination = m.storedStep solver termination := by
  obtain ⟨body, live, hreleased, hcost⟩ := m.program.exists_released_eq r
  rw [hreleased] at hprogram
  obtain ⟨program, functionId, synced, phase, answers, stored⟩ := m
  obtain ⟨program', functionId', synced', phase', answers', stored'⟩ := m'
  simp only at hprogram hstored hcost
  subst hprogram hstored
  simp only [storedStep, StageProgram.objective, hcost]
  rfl

/-- A model that holds what the backend has stored, and has counted its answer. -/
def hear (m : StageModel S) (stored : Option (Solution S)) : StageModel S :=
  { m with answers := m.answers + 1, stored := m.stored.store (stored.getD {}) }

/-- The model that is kept when the backend has replied to a request. -/
def kept (m : StageModel S) (solver : String) (r : Request S) (reply : Reply S) : StageModel S :=
  ((m.receive solver r reply).1.release r).1

/-- How a reply decides on the outcome and on the phase of the model that is kept. -/
inductive Decides (solver : String) (stage : Int) (state noise : List S) (m : StageModel S) :
    Reply S → Except Fault (Outcome S) → Prop
  | failed (cause : Fault) (phase : m.phase ≠ .solvedOptimal) :
      Decides solver stage state noise m (.failed cause) (.error cause)
  | infeasible (termination : Option String) (stored : Option (Solution S))
      (phase : m.phase ≠ .solvedOptimal) :
      Decides solver stage state noise m (.ended .infeasible termination stored)
        (.ok (.infeasible ⟨stage, state, noise, termination⟩))
  | optimal (termination : Option String) (stored : Option (Solution S)) (step : Step S)
      (holds : m.Holds step) (phase : m.phase = .solvedOptimal) :
      Decides solver stage state noise m (.ended .optimal termination stored) (.ok (.step step))
  | incomplete (termination : Option String) (stored : Option (Solution S)) (e : Fault)
      (lacks : m.storedStep solver termination = .error e) (phase : m.phase ≠ .solvedOptimal) :
      Decides solver stage state noise m (.ended .optimal termination stored) (.error e)
  | undecided (status : SolveStatus) (termination : Option String) (stored : Option (Solution S))
      (not_optimal : status ≠ .optimal) (not_infeasible : status ≠ .infeasible)
      (phase : m.phase ≠ .solvedOptimal) :
      Decides solver stage state noise m (.ended status termination stored)
        (.error (.endedWithoutOptimum stage termination (Scalar.writeVector state)
          (Scalar.writeVector noise)))

omit [Neg S] in
theorem receive_of_step {stored : Option (Solution S)} {step : Step S}
    (h : (m.hear stored).storedStep solver termination = .ok step) :
    (m.receive solver r (.ended .optimal termination stored)).1 =
        { m.hear stored with phase := .solvedOptimal } ∧
      (m.receive solver r (.ended .optimal termination stored)).2.2 = .ok (.step step) := by
  unfold hear at h ⊢
  simp only [receive, conclude, h]
  exact ⟨rfl, trivial⟩

omit [Neg S] in
theorem receive_of_incomplete {stored : Option (Solution S)} {e : Fault}
    (h : (m.hear stored).storedStep solver termination = .error e) :
    (m.receive solver r (.ended .optimal termination stored)).1 = m.hear stored ∧
      (m.receive solver r (.ended .optimal termination stored)).2.2 = .error e := by
  unfold hear at h ⊢
  simp only [receive, conclude, h]
  exact ⟨trivial, trivial⟩

/-- A model that is being solved decides on the outcome by the reply. -/
theorem decides_receive (hphase : m.phase = .solving) (solver : String) (r : Request S)
    (reply : Reply S) :
    Decides solver m.program.stage r.state r.noise (m.kept solver r reply) reply
      (m.receive solver r reply).2.2 := by
  have hphase' : Phase.solving ≠ .solvedOptimal := by decide
  have hphase'' : Phase.solvedInfeasible ≠ .solvedOptimal := by decide
  cases reply with
  | failed cause =>
      apply Decides.failed
      rw [kept, fst_release]
      exact hphase ▸ hphase'
  | ended status termination stored =>
      cases status with
      | infeasible =>
          apply Decides.infeasible
          rw [kept, fst_release]
          exact hphase''
      | optimal =>
          cases hstep : (m.hear stored).storedStep solver termination with
          | ok step =>
              obtain ⟨hmodel, houtcome⟩ := receive_of_step (r := r) hstep
              rw [houtcome]
              apply Decides.optimal
              · rw [← storedStep_eq_ok_iff _ solver termination, ← hstep]
                apply storedStep_of_released (r := r)
                · rw [kept, fst_release, hmodel]
                · rw [kept, fst_release, hmodel]
              · rw [kept, fst_release, hmodel]
          | error e =>
              obtain ⟨hmodel, houtcome⟩ := receive_of_incomplete (r := r) hstep
              rw [houtcome]
              apply Decides.incomplete
              · rw [← hstep]
                apply storedStep_of_released (r := r)
                · rw [kept, fst_release, hmodel]
                · rw [kept, fst_release, hmodel]
              · rw [kept, fst_release, hmodel]
                exact hphase ▸ hphase'
      | feasible | unbounded | unknown =>
          apply Decides.undecided
          · decide
          · decide
          · rw [kept, fst_release]
            exact hphase''

/-- The model that is kept has counted the answer, and holds what the backend has reported over what
it held before. -/
theorem kept_of_ended (m : StageModel S) (solver : String) (r : Request S) (status : SolveStatus)
    (termination : Option String) (stored : Option (Solution S)) :
    (m.kept solver r (.ended status termination stored)).answers = m.answers + 1 ∧
      (m.kept solver r (.ended status termination stored)).stored =
        m.stored.store (stored.getD {}) := by
  have hreceive : ∃ phase, (m.receive solver r (.ended status termination stored)).1 =
      { m.hear stored with phase } := by
    simp only [receive, conclude]
    cases status with
    | optimal =>
        dsimp only
        split
        · exact ⟨_, rfl⟩
        · exact ⟨_, rfl⟩
    | _ => exact ⟨_, rfl⟩
  obtain ⟨phase, hreceive⟩ := hreceive
  rw [kept, fst_release, hreceive]
  exact ⟨rfl, rfl⟩

theorem answers_kept (m : StageModel S) (solver : String) (r : Request S) (reply : Reply S) :
    (m.kept solver r reply).answers = m.answers + if reply.isEnded then 1 else 0 := by
  cases reply with
  | failed cause =>
      rw [kept, fst_release]
      rfl
  | ended status termination stored => exact (kept_of_ended m solver r status termination stored).1

theorem program_kept (m : StageModel S) (solver : String) (r : Request S) (reply : Reply S) :
    (m.kept solver r reply).program = m.program.released r := by
  rw [kept, fst_release]
  exact congrArg (·.released r) (keeps_receive m solver r reply).program

end StageModel

/-- Whether an outcome is a fault of the solver that passes on how the solve ended. -/
def TellsEnd (termination : Option String) (outcome : Except Fault (Outcome S)) : Prop :=
  ∃ e, outcome = .error e ∧ e.family = .solver ∧ e.termination? = termination

/-- What makes the outcome of a call faithful to the reply of the backend. The program `q` is what
the backend was asked for a state and a noise, and the model `m` is what is kept after the call. -/
structure Reflects (solver : String) (stage : Int) (state noise : List S) (q : StageProgram S)
    (reply : Reply S) (m : StageModel S) (outcome : Except Fault (Outcome S)) : Prop where
  /-- A dual or value that the reply reports is the one that is held. -/
  held : ∀ status termination stored, reply = .ended status termination stored →
    (∀ i x, (stored.getD {}).dual? i = some x → m.stored.dual? i = some x) ∧
      ∀ c x, (stored.getD {}).value? c = some x → m.stored.value? c = some x
  infeasible : ∀ i, outcome = .ok (.infeasible i) ↔ ∃ termination stored,
    reply = .ended .infeasible termination stored ∧ i = ⟨stage, state, noise, termination⟩
  step : ∀ step, outcome = .ok (.step step) ↔
    (∃ termination stored, reply = .ended .optimal termination stored) ∧ m.Holds step
  exists_step : m.IsReadable → ((∃ step, outcome = .ok (.step step)) ↔
    (∃ termination stored, reply = .ended .optimal termination stored) ∧ m.HasAll)
  objective : Scalar.AddsUp S → ∀ step point, outcome = .ok (.step step) →
    (∀ c x, m.stored.value? c = some x → x.read = .ok (point c)) →
      step.objective = q.value point
  undecided : ∀ status termination stored, reply = .ended status termination stored →
    status ≠ .optimal → status ≠ .infeasible → TellsEnd termination outcome ∧
      outcome = .error (.endedWithoutOptimum stage termination (Scalar.writeVector state)
        (Scalar.writeVector noise))
  missing : ∀ termination stored i, reply = .ended .optimal termination stored →
    i < q.dimStates → m.stored.dual? i = none → (∀ step, outcome ≠ .ok (.step step)) ∧
      ((∀ j x, m.stored.dual? j = some x → ∃ s, x.read = .ok s) →
        TellsEnd termination outcome ∧ ∃ j, m.stored.dual? j = none ∧
          outcome = .error (.missingDual solver (RowName.stateFix j).text termination))
  failed : ∀ cause, reply = .failed cause → outcome = .error cause
  phase : m.phase = .solvedOptimal ↔ ∃ step, outcome = .ok (.step step)

namespace StageModel

variable {m : StageModel S} {solver : String} {stage : Int} {state noise : List S}
variable {q : StageProgram S} {reply : Reply S} {outcome : Except Fault (Outcome S)} {r : Request S}

omit [Neg S] in
theorem Holds.unique {step step' : Step S} (h : m.Holds step) (h' : m.Holds step') :
    step = step' := by
  rw [← storedStep_eq_ok_iff m "" none] at h h'
  exact Except.ok.inj (h.symm.trans h')

omit [Neg S] in
/-- There is a step exactly if the status is optimal and the model holds it. -/
theorem Decides.step_iff (h : Decides solver stage state noise m reply outcome) (step : Step S) :
    outcome = .ok (.step step) ↔
      (∃ termination stored, reply = .ended .optimal termination stored) ∧ m.Holds step := by
  cases h with
  | failed cause _ => simp
  | infeasible termination stored _ => simp
  | optimal termination stored step' holds _ =>
      constructor
      · intro hstep
        obtain rfl := Outcome.step.inj (Except.ok.inj hstep)
        exact ⟨⟨termination, stored, rfl⟩, holds⟩
      · rintro ⟨-, hstep⟩
        rw [hstep.unique holds]
  | incomplete termination stored e lacks _ =>
      constructor
      · intro hstep
        cases hstep
      · rintro ⟨-, hstep⟩
        rw [← storedStep_eq_ok_iff m solver termination, lacks] at hstep
        cases hstep
  | undecided status termination stored hoptimal _ _ =>
      constructor
      · intro hstep
        cases hstep
      · rintro ⟨⟨_, _, hreply⟩, -⟩
        exact absurd (Reply.ended.inj hreply).1 hoptimal

omit [Neg S] in
theorem Decides.phase_iff (h : Decides solver stage state noise m reply outcome) :
    m.phase = .solvedOptimal ↔ ∃ step, outcome = .ok (.step step) := by
  cases h with
  | optimal _ _ step _ phase => exact iff_of_true phase ⟨step, rfl⟩
  | failed _ phase | infeasible _ _ phase | incomplete _ _ _ _ phase | undecided _ _ _ _ _ phase =>
      apply iff_of_false phase
      rintro ⟨step, hstep⟩
      cases hstep

omit [Neg S] in
theorem Decides.infeasible_iff (h : Decides solver stage state noise m reply outcome)
    (i : Infeasibility S) :
    outcome = .ok (.infeasible i) ↔ ∃ termination stored,
      reply = .ended .infeasible termination stored ∧ i = ⟨stage, state, noise, termination⟩ := by
  cases h with
  | failed cause _ => simp
  | infeasible termination stored _ =>
      constructor
      · intro hi
        exact ⟨termination, stored, rfl, (Outcome.infeasible.inj (Except.ok.inj hi)).symm⟩
      · rintro ⟨_, _, hreply, rfl⟩
        obtain ⟨-, rfl, -⟩ := Reply.ended.inj hreply
        rfl
  | optimal _ _ step _ _ => simp
  | incomplete _ _ e _ _ => simp
  | undecided status _ _ _ hinfeasible _ => simp [hinfeasible]

omit [Neg S] in
/-- Any other status ends in a fault that passes it on. -/
theorem Decides.undecided_of (h : Decides solver stage state noise m reply outcome)
    {status : SolveStatus} {termination : Option String} {stored : Option (Solution S)}
    (hreply : reply = .ended status termination stored) (hoptimal : status ≠ .optimal)
    (hinfeasible : status ≠ .infeasible) :
    TellsEnd termination outcome ∧
      outcome = .error (.endedWithoutOptimum stage termination (Scalar.writeVector state)
        (Scalar.writeVector noise)) := by
  cases h with
  | failed _ _ => cases hreply
  | infeasible _ _ _ => exact absurd (Reply.ended.inj hreply).1.symm hinfeasible
  | optimal _ _ _ _ _ => exact absurd (Reply.ended.inj hreply).1.symm hoptimal
  | incomplete _ _ _ _ _ => exact absurd (Reply.ended.inj hreply).1.symm hoptimal
  | undecided _ _ _ _ _ _ =>
      obtain ⟨-, rfl, -⟩ := Reply.ended.inj hreply
      exact ⟨⟨_, rfl, rfl, rfl⟩, rfl⟩

omit [Neg S] in
/-- Without a dual there is no step, and a fault that names the row if the others can be read. -/
theorem Decides.missing (h : Decides solver stage state noise m reply outcome)
    {termination : Option String} {stored : Option (Solution S)} {i : Nat}
    (hreply : reply = .ended .optimal termination stored) (hi : i < m.program.dimStates)
    (hnone : m.stored.dual? i = none) :
    (∀ step, outcome ≠ .ok (.step step)) ∧
      ((∀ j x, m.stored.dual? j = some x → ∃ s, x.read = .ok s) →
        TellsEnd termination outcome ∧ ∃ j, m.stored.dual? j = none ∧
          outcome = .error (.missingDual solver (RowName.stateFix j).text termination)) := by
  have hno : ∀ step, ¬ m.Holds step := by
    intro step hstep
    obtain ⟨_, -, x, hx, -⟩ := getElem?_of_forall₂ hstep.dualState (List.getElem?_range hi)
    rw [hnone] at hx
    cases hx
  constructor
  · intro step hstep
    exact hno step ((h.step_iff step).mp hstep).2
  · intro hread
    obtain ⟨j, -, hj, hmissing⟩ :=
      storedStep_of_missing solver termination ⟨i, hi, hnone⟩ hread
    cases h with
    | optimal _ _ step holds _ => exact absurd holds (hno step)
    | incomplete _ _ e lacks _ =>
        obtain ⟨-, rfl, -⟩ := Reply.ended.inj hreply
        obtain rfl := Except.error.inj (lacks.symm.trans hmissing)
        exact ⟨⟨_, rfl, rfl, rfl⟩, j, hj, rfl⟩
    | undecided status _ _ hoptimal _ _ => exact absurd (Reply.ended.inj hreply).1 hoptimal
    | failed _ _ => cases hreply
    | infeasible _ _ _ => cases hreply

/-- What a model that is being solved concludes is faithful to the reply. -/
theorem reflects_receive (hphase : m.phase = .solving) (solver : String) (r : Request S)
    (reply : Reply S) :
    Reflects solver m.program.stage r.state r.noise m.program reply (m.kept solver r reply)
      (m.receive solver r reply).2.2 := by
  have hdecides := decides_receive hphase solver r reply
  have hprogram := program_kept m solver r reply
  refine ⟨?_, hdecides.infeasible_iff, hdecides.step_iff, ?_, ?_, ?_, ?_, ?_, hdecides.phase_iff⟩
  · rintro status termination stored rfl
    rw [(kept_of_ended m solver r status termination stored).2]
    exact ⟨fun i x hx => Solution.dual?_store hx, fun c x hx => Solution.value?_store hx⟩
  · intro hread
    simp only [hdecides.step_iff, exists_and_left, exists_holds_iff hread]
  · intro hadds step point hstep hpoint
    rw [((hdecides.step_iff step).mp hstep).2.objective_eq hadds hpoint, hprogram,
      StageProgram.value_released]
  · intro status termination stored hreply hoptimal hinfeasible
    exact hdecides.undecided_of hreply hoptimal hinfeasible
  · intro termination stored i hreply hi hnone
    apply hdecides.missing hreply _ hnone
    rw [hprogram, StageProgram.dimStates_released]
    exact hi
  · rintro cause rfl
    rfl

end StageModel

variable [Sub S] [LT S] [DecidableLT S]

namespace Session

variable {setup : Setup S} {s : Session S} {c : Call S} {stage : Int} {n : Nat}

/-- How many solves of the model of a stage have ended after a call, if `n` had before. A call that
reaches a model which was built for it starts anew, and one that ends counts. -/
def endedAfter (setup : Setup S) (stage : Int) (s : Session S) (n : Nat) (c : Call S) : Nat :=
  if s.reaches setup c ∧ c.stage = stage then
    (if (s.after setup c).builds = s.builds then n else 0) +
      (if (s.handed setup c).any fun q => (setup.backend.reply s.asked q).isEnded then 1 else 0)
  else n

/-- How many solves of the model of a stage have ended after a run, if `n` had before. -/
def endedIn (setup : Setup S) (stage : Int) : Session S → Nat → List (Call S) → Nat
  | _, n, [] => n
  | s, n, c :: calls =>
    endedIn setup stage (s.after setup c) (endedAfter setup stage s n c) calls

/-- Whether the model of a stage, if there is one, has counted so many answers. -/
def Counts (s : Session S) (stage : Int) (n : Nat) : Prop :=
  ∀ m, s.model? stage = some m → m.answers = n

/-- A model that a call finds goes on counting, and one that is built for it starts. -/
theorem Inherits.answers_eq {m : StageModel S} (h : Inherits setup s c m)
    (hcounts : s.Counts c.stage n) :
    m.answers = if (s.after setup c).builds = s.builds then n else 0 := by
  cases h with
  | found m₀ model serves answers stored builds => rw [if_pos builds, answers, hcounts m₀ model]
  | built unserved answers stored builds =>
      have hbuilt : (s.after setup c).builds ≠ s.builds := by omega
      rw [if_neg hbuilt, answers]

/-- A call that reaches a model leaves one that has counted on from what it inherits. -/
theorem Counts.after_of_reaches {m m' : StageModel S} (hcounts : s.Counts stage n)
    (hreaches : s.reaches setup c = true) (hpast : Inherits setup s c m)
    (hmodels : ∀ t, (s.after setup c).model? t = if t = c.stage then some m' else s.model? t)
    (hanswers : m'.answers = m.answers +
      if (s.handed setup c).any fun q => (setup.backend.reply s.asked q).isEnded then 1 else 0) :
    (s.after setup c).Counts stage (endedAfter setup stage s n c) := by
  intro m'' hm''
  rw [hmodels] at hm''
  by_cases hstage : stage = c.stage
  · subst hstage
    rw [if_pos rfl] at hm''
    obtain rfl := Option.some.inj hm''
    rw [endedAfter, if_pos ⟨hreaches, rfl⟩, hanswers, hpast.answers_eq hcounts]
  · rw [if_neg hstage] at hm''
    rw [endedAfter, if_neg fun h => hstage h.2.symm]
    exact hcounts m'' hm''

/-- A model goes on counting from call to call. -/
theorem Counts.after (hcounts : s.Counts stage n) (h : s.IsSound setup) (c : Call S) :
    (s.after setup c).Counts stage (endedAfter setup stage s n c) := by
  rcases h.puts_or_mislays_or_idles c with ⟨r, m, hputs⟩ | ⟨r, m, hmislays⟩ | hidles
  · have hhanded := handed_eq_some hputs.asked
    have hreaches := ((h.isSome_handed_iff c).mp (by rw [hhanded]; rfl)).1
    apply hcounts.after_of_reaches hreaches hputs.past hputs.model
    rw [hhanded]
    exact StageModel.answers_kept m setup.params.solver.display r (s.replyTo setup m)
  · apply hcounts.after_of_reaches hmislays.syncs.reaches hmislays.past hmislays.model
    rw [hmislays.syncs.handed_eq]
    rfl
  · rw [endedAfter, hidles.unreached, if_neg fun h => Bool.false_ne_true h.1]
    intro m' hm'
    rcases hidles.models stage with hsame | ⟨m, p, hmodel, hafter⟩
    · exact hcounts m' (hsame.symm.trans hm')
    · obtain rfl := Option.some.inj (hafter.symm.trans hm')
      exact hcounts m hmodel

/-- After a run, the model of a stage has counted the solves that have ended since it was built. -/
theorem Counts.run (hcounts : s.Counts stage n) (h : s.IsSound setup) (calls : List (Call S)) :
    (s.run setup calls).Counts stage (endedIn setup stage s n calls) := by
  induction calls generalizing s n with
  | nil => exact hcounts
  | cons c calls ih => exact ih (hcounts.after h c) (h.solve c).1

/-- After any run, the outcome of a call that comes to the backend is faithful to the reply, and the
model has counted the solves that have ended since it was built. -/
theorem reflects_run (setup : Setup S) (calls : List (Call S)) (c : Call S) {q : StageProgram S}
    (hhanded : (({} : Session S).run setup calls).handed setup c = some q) :
    let s := ({} : Session S).run setup calls
    ∃ state noise m,
      Scalar.readVector "state" (.num setup.problem.states) c.state = .ok state ∧
      Scalar.readVector "noise" (.num setup.problem.noises) c.noise = .ok noise ∧
      (s.after setup c).model? c.stage = some m ∧
      Reflects setup.params.solver.display c.stage state noise q (setup.backend.reply s.asked q) m
        (s.result setup c).2 ∧
      m.answers = endedIn setup c.stage {} 0 (calls ++ [c]) := by
  intro s
  have hsound := isSound_run setup calls
  obtain ⟨r, m, hputs, rfl⟩ := hsound.puts_of_handed hhanded
  have hmodel : (s.after setup c).model? c.stage =
      some (m.kept setup.params.solver.display r (s.replyTo setup m)) := by
    rw [hputs.model, if_pos rfl]
    rfl
  refine ⟨r.state, r.noise, _, state_of_readRequest hputs.read, noise_of_readRequest hputs.read,
    hmodel, ?_, ?_⟩
  · rw [hputs.outcome, ← hputs.aimed.stage_eq]
    exact StageModel.reflects_receive hputs.phase _ r _
  · have hnew : ({} : Session S).Counts c.stage 0 := by
      intro m' hm'
      cases hm'
    apply hnew.run (isSound_new setup) (calls ++ [c])
    rw [run_concat]
    exact hmodel

end Session

namespace Stock

/-- After a solve in which the backend failed, the next one ends with an optimum, and the step is
the one that the model holds. Its objective is the value of the program at the point that is stored.
-/
theorem reflects_afterFailure :
    let solution : Solution ℚ :=
      ⟨[(.state 0, some (.scalar 2)), (.control 0, some (.plain (.whole 1))),
        (.nextState 0, some (.scalar 2)), (.future, some (.plain (.whole 3))),
        (.cost, some (.scalar 2))], [some (.scalar (-1))]⟩
    let setup : Setup ℚ := ⟨problem .linear, params .slotReuse,
      .scripted [.failed (.backendBroke none), .ended .optimal (some "optimal") (some solution)]⟩
    let calls := [call 2 3 [] .null]
    let c := call 2 1 [⟨[-1], 5⟩] .null
    let s := ({} : Session ℚ).run setup calls
    (s.result setup c).2.toOption.map Outcome.isFeasible = some true ∧
      ∃ q, s.handed setup c = some q ∧ ∃ state noise m,
        Scalar.readVector "state" (.num setup.problem.states) c.state = .ok state ∧
        Scalar.readVector "noise" (.num setup.problem.noises) c.noise = .ok noise ∧
        (s.after setup c).model? c.stage = some m ∧
        Reflects setup.params.solver.display c.stage state noise q (setup.backend.reply s.asked q)
          m (s.result setup c).2 ∧
        m.answers = Session.endedIn setup c.stage {} 0 (calls ++ [c]) ∧
        ∃ step, (s.result setup c).2 = .ok (.step step) ∧ ∀ point : Column → ℚ,
          (∀ column x, m.stored.value? column = some x → x.read = .ok (point column)) →
            step.objective = q.value point := by
  intro solution setup calls c s
  have hfeasible : (s.result setup c).2.toOption.map Outcome.isFeasible = some true := by
    decide +kernel
  obtain ⟨step, hstep⟩ : ∃ step, (s.result setup c).2 = .ok (.step step) := by
    cases houtcome : (s.result setup c).2 with
    | error e =>
        rw [houtcome] at hfeasible
        cases hfeasible
    | ok outcome =>
        cases outcome with
        | step step => exact ⟨step, rfl⟩
        | infeasible i =>
            rw [houtcome] at hfeasible
            cases hfeasible
  have hsome : (s.handed setup c).isSome := by decide +kernel
  obtain ⟨q, hq⟩ := Option.isSome_iff_exists.mp hsome
  obtain ⟨state, noise, m, hstate, hnoise, hmodel, hreflects, hanswers⟩ :=
    Session.reflects_run setup calls c hq
  exact ⟨hfeasible, q, hq, state, noise, m, hstate, hnoise, hmodel, hreflects, hanswers, step,
    hstep, fun point => hreflects.objective Scalar.IsExact.addsUp step point hstep⟩

/-- The stock in doubles. -/
def doubles : Problem Float where
  states := .whole 1
  controls := .whole 1
  noises := .whole 1
  stateBounds := [⟨.int 0, .int 10⟩]
  controlBounds := [⟨.int 0, .int 5⟩]
  dynamics := (RowPlan.rows [leftOver]).toRows shape
  equalities _ _ := .ok []
  inequalities _ _ := .ok []
  cost := .single (price.cost shape)
  costModel := .text CostModel.linear.keyword
  laws := none

/-- A solution in which what is left over is a whole number beyond all doubles. -/
def beyondDoubles : Solution Float where
  values := [(.state 0, some (.plain (.whole 1))), (.control 0, some (.plain (.whole 2))),
    (.nextState 0, some (.plain (.whole (10 ^ 200 * 10 ^ 200)))),
    (.future, some (.plain (.whole 3)))]
  duals := [some (.scalar 0.5)]

/-- A backend that reports this solution as an optimum. -/
def overflowing : Setup Float :=
  ⟨doubles, params .rebuild,
    { reply _ _ := .ended .optimal (some "optimal") (some beyondDoubles) }⟩

/-- An optimum with a dual for every state row and a value for every column that is read does not
come to a step if one of the values is too large to be read. -/
theorem no_step_overflowing :
    let c : Call Float := ⟨0, .list [.int 1], .list [.int 1], ⟨0, .int 1, []⟩, .null⟩
    let s : Session Float := {}
    (∃ q, s.handed overflowing c = some q ∧ overflowing.backend.reply s.asked q =
        .ended .optimal (some "optimal") (some beyondDoubles)) ∧
      (∃ m, (s.after overflowing c).model? 0 = some m ∧ m.HasAll) ∧
      ∀ step, (s.result overflowing c).2 ≠ .ok (.step step) := by
  intro c s
  have hhanded : (s.handed overflowing c).isSome := by decide +kernel
  obtain ⟨q, hq⟩ := Option.isSome_iff_exists.mp hhanded
  have hall : ((s.after overflowing c).model? 0).any (fun m => decide m.HasAll) := by
    decide +kernel
  obtain ⟨m, hm, hhas⟩ := (Option.any_eq_true _ _).mp hall
  have hnone : (s.result overflowing c).2.toOption.isNone := by decide +kernel
  refine ⟨⟨q, hq, rfl⟩, ⟨m, hm, of_decide_eq_true hhas⟩, ?_⟩
  intro step hstep
  rw [hstep] at hnone
  cases hnone

end Stock

end Bellman
