import Bellman.Proofs.Session.Complete
import Bellman.Proofs.Session.Faithful

/-!
# The phases of stage models

A model is ready when it is built, and solving while the backend works on it. When the backend has
replied, the model enters the phase of what it concludes: solved with an optimum if there is a step,
and solved without one if the backend ended in another status. But if the backend failed, or ended
with an optimum that does not come to a step, then the call ends with a fault before the model has
entered another phase. Such calls are the only ones that leave a model solving, and it stays so
until the next call for its stage comes to the backend or has another model built.
-/

namespace Bellman

open Data

variable {S : Type}

/-- The phase in which a model is left by a reply and by what comes of it. -/
def Phase.told : Reply S → Except Fault (Outcome S) → Phase
  | .failed _, _ => .solving
  | .ended .optimal _ _, .ok _ => .solvedOptimal
  | .ended .optimal _ _, .error _ => .solving
  | .ended _ _ _, _ => .solvedInfeasible

variable [Scalar S] [Zero S] [One S] [Neg S] [Add S] [Mul S] [LE S] [DecidableLE S]

/-- A model that was solving is kept in the phase that the reply tells. -/
theorem StageModel.phase_kept {m : StageModel S} (hphase : m.phase = .solving) (solver : String)
    (r : Request S) (reply : Reply S) :
    (m.kept solver r reply).phase = .told reply (m.receive solver r reply).2.2 := by
  rw [kept, fst_release]
  cases reply with
  | failed cause => exact hphase
  | ended status termination stored =>
      cases status with
      | optimal =>
          cases hstep : (m.hear stored).storedStep solver termination with
          | ok step =>
              obtain ⟨hmodel, houtcome⟩ := receive_of_step (r := r) hstep
              rw [hmodel, houtcome]
              rfl
          | error e =>
              obtain ⟨hmodel, houtcome⟩ := receive_of_incomplete (r := r) hstep
              rw [hmodel, houtcome]
              exact hphase
      | _ => rfl

variable [Sub S] [LT S] [DecidableLT S]

namespace Session

variable {setup : Setup S} {s : Session S} {c : Call S} {stage : Int}

/-- Whether no model of a session is solving. -/
def IsSettled (s : Session S) : Prop :=
  ∀ stage m, s.model? stage = some m → m.phase ≠ .solving

/-- Whether a call comes to the backend and then ends with a fault, although the backend did not end
in another status than an optimum. -/
def BreaksOff (setup : Setup S) (s : Session S) (c : Call S) : Prop :=
  ∃ q e, s.handed setup c = some q ∧ (s.result setup c).2 = .error e ∧
    ∀ status termination stored, setup.backend.reply s.asked q = .ended status termination stored →
      status = .optimal

/-- The phase in which a call leaves the model of its stage if it comes to the backend, or else
reaches a model that was built for it. -/
def phaseTold (setup : Setup S) (s : Session S) (c : Call S) : Option Phase :=
  match s.handed setup c with
  | some q => some (.told (setup.backend.reply s.asked q) (s.result setup c).2)
  | none =>
    if s.reaches setup c ∧ (s.after setup c).builds ≠ s.builds then some .ready else none

/-- A call that comes to the backend leaves the model of its stage in the phase that the reply
tells, and one that only reaches a model which was built for it leaves it ready. Any other call
changes no phase. -/
theorem IsSound.phase_after (h : s.IsSound setup) (c : Call S) (stage : Int) :
    ((s.after setup c).model? stage).map StageModel.phase =
      if c.stage = stage then (s.phaseTold setup c).or ((s.model? stage).map StageModel.phase)
      else (s.model? stage).map StageModel.phase := by
  rcases h.puts_or_mislays_or_idles c with ⟨r, m, hputs⟩ | ⟨r, m, hmislays⟩ | hidles
  · rw [hputs.model]
    by_cases hstage : stage = c.stage
    · subst hstage
      simp only [if_true, phaseTold, handed_eq_some hputs.asked, hputs.outcome]
      exact congrArg some (StageModel.phase_kept hputs.phase _ r _)
    · rw [if_neg hstage, if_neg (Ne.symm hstage)]
  · rw [hmislays.model]
    by_cases hstage : stage = c.stage
    · subst hstage
      simp only [if_true, phaseTold, hmislays.syncs.handed_eq, hmislays.syncs.reaches, true_and,
        Option.map_some]
      by_cases hbuilt : (s.after setup c).builds = s.builds
      · rw [if_neg (not_not.mpr hbuilt), Option.none_or, hmislays.phase hbuilt]
      · rw [if_pos hbuilt, Option.some_or, hmislays.ready hbuilt]
    · rw [if_neg hstage, if_neg (Ne.symm hstage)]
  · have hphase : ((s.after setup c).model? stage).map StageModel.phase =
        (s.model? stage).map StageModel.phase := by
      rcases hidles.models stage with hsame | ⟨m, p, hmodel, hafter⟩
      · rw [hsame]
      · rw [hafter, hmodel]
        rfl
    simp only [hphase, phaseTold, handed_eq_none hidles.asked, hidles.unreached,
      Bool.false_eq_true, false_and, if_false, Option.none_or, ite_self]

/-- A call breaks off exactly if it comes to the backend and leaves the model of its stage solving.
-/
theorem IsSound.phaseTold_eq_solving_iff (h : s.IsSound setup) :
    s.phaseTold setup c = some .solving ↔ s.BreaksOff setup c := by
  constructor
  · intro htold
    obtain ⟨q, hq, htold⟩ : ∃ q, s.handed setup c = some q ∧
        Phase.told (setup.backend.reply s.asked q) (s.result setup c).2 = .solving := by
      unfold phaseTold at htold
      split at htold
      · next q hq => exact ⟨q, hq, Option.some.inj htold⟩
      · split at htold <;> cases htold
    obtain ⟨r, m, hputs, rfl⟩ := h.puts_of_handed hq
    have houtcome := hputs.outcome
    cases hreply : setup.backend.reply s.asked m.program with
    | failed cause =>
        rw [hreply] at houtcome
        refine ⟨m.program, cause, hq, houtcome, ?_⟩
        intro status termination stored hended
        cases hreply.symm.trans hended
    | ended status termination stored =>
        cases status with
        | optimal =>
            cases hresult : (s.result setup c).2 with
            | ok outcome =>
                rw [hreply, hresult] at htold
                cases htold
            | error e =>
                refine ⟨m.program, e, hq, hresult, ?_⟩
                intro status' termination' stored' hended
                exact (Reply.ended.inj (hreply.symm.trans hended)).1.symm
        | _ =>
            rw [hreply] at htold
            cases htold
  · rintro ⟨q, e, hq, hresult, hstatus⟩
    simp only [phaseTold, hq, hresult]
    cases hreply : setup.backend.reply s.asked q with
    | failed cause => rw [Phase.told]
    | ended status termination stored =>
        obtain rfl := hstatus status termination stored hreply
        rw [Phase.told]

omit [Scalar S] [Zero S] [One S] [Neg S] [Add S] [Mul S] [LE S] [DecidableLE S] [Sub S] [LT S]
  [DecidableLT S] in
theorem isSettled_iff : s.IsSettled ↔
    ∀ stage, (s.model? stage).map StageModel.phase ≠ some .solving := by
  simp only [IsSettled, ne_eq, Option.map_eq_some_iff, not_exists, not_and]

/-- If no model was solving before a call, then none is after it exactly if the call did not break
off. -/
theorem IsSound.isSettled_after_iff (h : s.IsSound setup) (hsettled : s.IsSettled) :
    (s.after setup c).IsSettled ↔ ¬ s.BreaksOff setup c := by
  rw [← h.phaseTold_eq_solving_iff]
  rw [isSettled_iff] at hsettled ⊢
  constructor
  · intro hafter htold
    apply hafter c.stage
    rw [h.phase_after, if_pos rfl, htold, Option.some_or]
  · intro htold stage
    rw [h.phase_after]
    split
    · cases hphase : s.phaseTold setup c with
      | none => exact hsettled stage
      | some phase =>
          rw [Option.some_or, ← hphase]
          exact htold
    · exact hsettled stage

/-- Whether a call is the last one of a run that tells the phase of the model of some stage. -/
structure IsLastFor (setup : Setup S) (stage : Int) (calls before : List (Call S)) (c : Call S) :
    Prop where
  stage_eq : c.stage = stage
  tells : ((({} : Session S).run setup before).phaseTold setup c).isSome
  last : ∃ later, calls = before ++ c :: later ∧ ∀ between d, between ++ [d] <+: later →
    d.stage = stage →
      (({} : Session S).run setup (before ++ c :: between)).phaseTold setup d = none

theorem IsLastFor.concat {calls before : List (Call S)} {d : Call S}
    (h : IsLastFor setup stage calls before c)
    (hidle : d.stage = stage → (({} : Session S).run setup calls).phaseTold setup d = none) :
    IsLastFor setup stage (calls ++ [d]) before c := by
  obtain ⟨later, hcalls, hlater⟩ := h.last
  refine ⟨h.stage_eq, h.tells, later ++ [d], ?_, ?_⟩
  · rw [hcalls, List.append_assoc, List.cons_append]
  · intro between d' hprefix hstage
    rcases List.prefix_concat_iff.mp hprefix with heq | hprefix
    · obtain ⟨rfl, hd⟩ := List.append_inj' heq rfl
      obtain rfl := List.singleton_inj.mp hd
      rw [← hcalls]
      exact hidle hstage
    · exact hlater between d' hprefix hstage

/-- After any run, the last call that tells the phase of the model of a stage is right. -/
theorem exists_phaseTold_run (setup : Setup S) (calls : List (Call S)) {m : StageModel S}
    (hm : (({} : Session S).run setup calls).model? stage = some m) :
    ∃ before c, IsLastFor setup stage calls before c ∧
      (({} : Session S).run setup before).phaseTold setup c = some m.phase := by
  induction calls using List.reverseRecOn generalizing m with
  | nil => cases hm
  | append_singleton calls d ih =>
      have hphase := (isSound_run setup calls).phase_after d stage
      rw [← run_concat, hm, Option.map_some] at hphase
      by_cases hlast : d.stage = stage ∧
          (({} : Session S).run setup calls).phaseTold setup d ≠ none
      · obtain ⟨hstage, htells⟩ := hlast
        obtain ⟨phase, htold⟩ := Option.ne_none_iff_exists'.mp htells
        rw [if_pos hstage, htold, Option.some_or] at hphase
        refine ⟨calls, d, ⟨hstage, by rw [htold]; rfl, [], rfl, ?_⟩, htold.trans hphase.symm⟩
        intro between d' hprefix
        cases between <;> cases List.prefix_nil.mp hprefix
      · rw [not_and, not_not] at hlast
        have hkept : ((({} : Session S).run setup calls).model? stage).map StageModel.phase =
            some m.phase := by
          rw [hphase]
          split
          · next hstage =>
              rw [hlast hstage]
              rfl
          · rfl
        obtain ⟨m', hm', hsame⟩ := Option.map_eq_some_iff.mp hkept
        obtain ⟨before, c, hc, htold⟩ := ih hm'
        exact ⟨before, c, hc.concat hlast, hsame ▸ htold⟩

/-- The phases of the models of a session. After any run, the phase of the model of a stage is told
by the last call of the stage that came to the backend or had the model built. And in all states of
a run no model is solving exactly if no call of the run broke off. -/
theorem phases_run (setup : Setup S) (calls : List (Call S)) :
    (∀ stage m, (({} : Session S).run setup calls).model? stage = some m →
      ∃ before c, IsLastFor setup stage calls before c ∧
        (({} : Session S).run setup before).phaseTold setup c = some m.phase) ∧
    ((∀ before, before <+: calls → (({} : Session S).run setup before).IsSettled) ↔
      ∀ before c, before ++ [c] <+: calls →
        ¬ (({} : Session S).run setup before).BreaksOff setup c) := by
  refine ⟨fun stage m hm => exists_phaseTold_run setup calls hm, forall_run_iff ?_ ?_ calls⟩
  · intro stage m hm
    cases hm
  · intro s c hsound hsettled
    exact hsound.isSettled_after_iff hsettled

end Session

namespace Stock

/-- A backend that ends with an optimum, but without a dual for the row that holds the state. -/
def withoutDual : Setup ℚ :=
  ⟨problem .linear, params .rebuild,
    { reply _ p := .ended .optimal (some "optimal") (some { zeros p with duals := [] }) }⟩

/-- A call ends with a fault because there is no dual, and leaves the model solving. -/
theorem left_solving :
    (({} : Session ℚ).result withoutDual (call 2 3 [] .null)).2 =
      .error (.missingDual withoutDual.params.solver.display (RowName.stateFix 0).text
        (some "optimal")) ∧
    ((({} : Session ℚ).run withoutDual [call 2 3 [] .null]).model? 0).map StageModel.phase =
      some .solving :=
  ⟨rfl, rfl⟩

end Stock

end Bellman
