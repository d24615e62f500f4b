import Bellman.Proofs.Session.Run
import Mathlib.Data.List.Induction

/-!
# Where the models of a session come from

Whatever is asked of a session, and whether it ends with an outcome or with a fault, the program of
every model was built for its stage. Since then it has gained cuts, up to the first that did not
fit, and has been retargeted. So a program that is handed to the backend is always one that was
built and then targeted to the request.
-/

namespace Bellman

open Data

variable {S : Type}

namespace StageModel

/-- Cuts are only ever added, even if one of them does not fit. -/
theorem exists_addCuts (p : StageProgram S) (cuts : List (Cut S)) :
    ∃ added, (addCuts p cuts).1 = { p with cuts := p.cuts ++ added } := by
  induction cuts generalizing p with
  | nil => exact ⟨[], by simp only [addCuts, List.append_nil]⟩
  | cons c cuts ih =>
      simp only [addCuts]
      split
      · next p' hp' =>
          obtain ⟨-, rfl⟩ := StageProgram.addCut_eq_ok_iff.mp hp'
          obtain ⟨added, hadded⟩ := ih { p with cuts := p.cuts ++ [c] }
          refine ⟨c :: added, hadded.trans ?_⟩
          simp only [List.append_assoc, List.singleton_append]
      · exact ⟨[], by simp only [List.append_nil]⟩

theorem exists_sync (m : StageModel S) (f : ValueFunction S) :
    ∃ added, (m.sync f).1.program = { m.program with cuts := m.program.cuts ++ added } := by
  obtain ⟨added, hadded⟩ := exists_addCuts m.program (f.cuts.drop m.synced)
  unfold sync
  split
  · exact ⟨[], by simp only [List.append_nil]⟩
  · split
    · next p e hp => exact ⟨added, by simpa only [hp] using hadded⟩
    · next p hp => exact ⟨added, by simpa only [hp] using hadded⟩

end StageModel

namespace StageProgram

variable [Scalar S] [Zero S] [Neg S]

/-- Whether a program was built for a stage, and has only gained cuts and been retargeted since. -/
def IsFor (setup : Setup S) (stage : Int) (p : StageProgram S) : Prop :=
  ∃ dim model, ∃ parts : Parts setup.problem setup.params stage dim model, ∃ cuts,
    (parts.program cuts).Retargets p

/-- Whether a program is what a program that was built for a stage is targeted to for a request. -/
def IsAimed (setup : Setup S) (stage : Int) (r : Request S) (q : StageProgram S) : Prop :=
  ∃ dim model, ∃ parts : Parts setup.problem setup.params stage dim model, ∃ cuts,
    (parts.program cuts).aimed r = .ok q

variable {setup : Setup S} {stage : Int} {p q : StageProgram S} {r : Request S}

theorem IsFor.of_build {v : ValueFunction S} {model : CostModel}
    (h : build setup.problem setup.params stage v = .ok (model, p)) : p.IsFor setup stage := by
  obtain ⟨parts, -, rfl⟩ := build_eq_ok_iff.mp h
  exact ⟨_, _, parts, _, .refl _⟩

theorem IsFor.appendCuts (h : p.IsFor setup stage) (cuts : List (Cut S)) :
    ({ p with cuts := p.cuts ++ cuts } : StageProgram S).IsFor setup stage := by
  obtain ⟨dim, model, parts, cuts', hretargets⟩ := h
  exact ⟨dim, model, parts, cuts' ++ cuts, hretargets.appendCuts cuts⟩

theorem IsFor.isAimed (h : p.IsFor setup stage) (hq : p.aimed r = .ok q) :
    q.IsAimed setup stage r := by
  obtain ⟨dim, model, parts, cuts, hretargets⟩ := h
  exact ⟨dim, model, parts, cuts, (hretargets.aimed_eq r).symm.trans hq⟩

theorem IsFor.exists_aimed (h : p.IsFor setup stage)
    (hr : r.Fits setup.problem setup.params stage) (hindexed : r.IsIndexed) :
    ∃ q, p.aimed r = .ok q := by
  obtain ⟨dim, model, parts, cuts, hretargets⟩ := h
  rw [hretargets.aimed_eq]
  exact parts.exists_aimed cuts hr hindexed

theorem IsFor.aimed_of_not_isIndexed (h : p.IsFor setup stage)
    (hr : r.Fits setup.problem setup.params stage) (hindexed : ¬ r.IsIndexed) :
    p.aimed r = .error (.notAnIndex "float") := by
  obtain ⟨dim, model, parts, cuts, hretargets⟩ := h
  rw [hretargets.aimed_eq]
  exact parts.aimed_of_not_isIndexed cuts hr hindexed

theorem IsFor.leftBy (h : p.IsFor setup stage) (hr : r.Fits setup.problem setup.params stage) :
    (p.leftBy r).IsFor setup stage := by
  obtain ⟨dim, model, parts, cuts, hretargets⟩ := h
  exact ⟨dim, model, parts, cuts, parts.retargets_leftBy hr hretargets⟩

end StageProgram

namespace Session

section Models

variable [Scalar S] [Zero S] [Neg S]

/-- Whether every model of a session was built for its stage. -/
def IsSound (setup : Setup S) (s : Session S) : Prop :=
  ∀ stage m, s.model? stage = some m → m.program.IsFor setup stage

variable {setup : Setup S} {s : Session S} {stage : Int} {m : StageModel S}

theorem isSound_new (setup : Setup S) : ({} : Session S).IsSound setup := by
  intro stage m hm
  cases hm

theorem IsSound.put (h : s.IsSound setup) (hm : m.program.IsFor setup stage) :
    (s.put stage m).IsSound setup := by
  intro t m' hm'
  rw [model?_put] at hm'
  split at hm'
  · next heq =>
      obtain rfl := Option.some.inj hm'
      exact heq ▸ hm
  · exact h t m' hm'

/-- The model that is found or built for a call was built for its stage. -/
theorem IsSound.stageModel (h : s.IsSound setup) (stage : Int) (f : NamedFunction S) :
    (s.stageModel setup stage f).1.IsSound setup ∧
      (s.stageModel setup stage f).1.asked = s.asked ∧
      ∀ m, (s.stageModel setup stage f).2 = .ok m → m.program.IsFor setup stage := by
  rcases s.serves_or_not stage f with ⟨m, hm, hserves⟩ | hserves
  · rw [stageModel_of_serves hm hserves]
    refine ⟨h, rfl, fun m' hm' => ?_⟩
    obtain rfl := Except.ok.inj hm'
    exact h stage m hm
  · rcases stageModel_of_not_serves setup hserves with
      ⟨e, -, hstage⟩ | ⟨model, base, hbuild, ⟨e, -, hstage⟩ | ⟨-, hstage⟩⟩
    · rw [hstage]
      exact ⟨h, rfl, fun m hm => by cases hm⟩
    · rw [hstage]
      exact ⟨h, rfl, fun m hm => by cases hm⟩
    · rw [hstage]
      have hfresh : (StageModel.fresh base f).program.IsFor setup stage := .of_build hbuild
      refine ⟨IsSound.put (s := s.counted setup stage model f) h hfresh, rfl, fun m hm => ?_⟩
      obtain rfl := Except.ok.inj hm
      exact hfresh

end Models

variable [Scalar S] [Zero S] [One S] [Neg S] [Add S] [Sub S] [Mul S]
variable [LE S] [DecidableLE S] [LT S] [DecidableLT S]
variable {setup : Setup S} {s : Session S} {c : Call S}

/-- What a request that is put to the backend comes to: a program that was built is targeted to it,
and the outcome is what the model with that program concludes from the reply. -/
structure Asks (setup : Setup S) (s : Session S) (stage : Int) (r : Request S)
    (after : Session S × Except Fault (Outcome S)) (m : StageModel S) : Prop where
  aimed : m.program.IsAimed setup stage r
  asked : after.1.asked = s.asked ++ [m.program]
  outcome : after.2 = (m.receive setup.params.solver.display r
    (setup.backend.reply s.asked m.program)).2.2

omit [Sub S] [LT S] [DecidableLT S] in
theorem IsSound.solveModel (h : s.IsSound setup) {stage : Int} {m : StageModel S} {r : Request S}
    (hm : m.program.IsFor setup stage) (hr : r.Fits setup.problem setup.params stage)
    (f : ValueFunction S) :
    (s.solveModel setup stage m f r).1.IsSound setup ∧
      ((∃ e, (s.solveModel setup stage m f r).2 = .error e) ∧
          (s.solveModel setup stage m f r).1.asked = s.asked ∨
        ∃ m', s.Asks setup stage r (s.solveModel setup stage m f r) m') := by
  obtain ⟨added, hadded⟩ := m.exists_sync f
  unfold Session.solveModel
  split
  · next m₁ notes e hsync =>
      rw [hsync] at hadded
      refine ⟨IsSound.put (s := s) h ?_, .inl ⟨⟨e, rfl⟩, rfl⟩⟩
      rw [hadded]
      exact hm.appendCuts added
  · next m₁ notes hsync =>
      rw [hsync] at hadded
      have hm₁ : m₁.program.IsFor setup stage := by
        rw [hadded]
        exact hm.appendCuts added
      have hleft := hm₁.leftBy hr
      cases hq : m₁.program.aimed r with
      | error e =>
          simp only [StageProgram.leftBy, hq] at hleft
          rw [StageModel.aim_of_error hq]
          exact ⟨IsSound.put (s := s) h hleft, .inl ⟨⟨e, rfl⟩, rfl⟩⟩
      | ok q =>
          simp only [StageProgram.leftBy, hq] at hleft
          obtain ⟨notes', haim⟩ := StageModel.aim_of_aimed hq
          rw [haim]
          obtain ⟨notes'', hask⟩ := fst_ask setup (s.record (notes ++ notes')) stage
            { m₁ with program := q } r
          refine ⟨?_, .inr ⟨(({ m₁ with program := q } : StageModel S).enter .ready).1.enter
            .solving |>.1, hm₁.isAimed hq, ?_, rfl⟩⟩
          · rw [hask]
            refine IsSound.put (s := s) h ?_
            rw [StageModel.program_answered]
            exact hleft
          · rw [hask]
            rfl

/-- A call either ends with a fault and asks the backend nothing, or hands a program to it. Either
way all models are left as ones that were built for their stages. -/
theorem IsSound.asks_or_idle (h : s.IsSound setup) (c : Call S) :
    (s.after setup c).IsSound setup ∧
      ((∃ e, (s.solve setup c.stage c.state c.noise c.function c.index).2 = .error e) ∧
          (s.after setup c).asked = s.asked ∨
        ∃ r m, readRequest setup c.stage c.state c.noise c.index = .ok r ∧
          s.Asks setup c.stage r (s.solve setup c.stage c.state c.noise c.function c.index) m) := by
  unfold after Session.solve
  split
  · next e _ => exact ⟨h, .inl ⟨⟨e, rfl⟩, rfl⟩⟩
  · next r hread =>
      obtain ⟨hsound, hasked, hbuilt⟩ := h.stageModel c.stage c.function
      split
      · next s' e hstage =>
          rw [hstage] at hsound hasked
          exact ⟨hsound, .inl ⟨⟨e, rfl⟩, hasked⟩⟩
      · next s' m hstage =>
          rw [hstage] at hsound hasked hbuilt
          obtain ⟨hsound', ⟨herror, hidle⟩ | ⟨m', haimed, hasked', houtcome⟩⟩ :=
            hsound.solveModel (hbuilt m rfl) (fits_of_readRequest hread) c.function.function
          · exact ⟨hsound', .inl ⟨herror, hidle.trans hasked⟩⟩
          · refine ⟨hsound', .inr ⟨r, m', hread, haimed, ?_, ?_⟩⟩
            · rw [hasked', hasked]
            · rw [houtcome, hasked]

theorem IsSound.solve (h : s.IsSound setup) (c : Call S) :
    (s.after setup c).IsSound setup ∧
      ((∃ e, (s.solve setup c.stage c.state c.noise c.function c.index).2 = .error e) ∨
        ∃ r m, readRequest setup c.stage c.state c.noise c.index = .ok r ∧
          s.Asks setup c.stage r (s.solve setup c.stage c.state c.noise c.function c.index) m) :=
  ⟨(h.asks_or_idle c).1, (h.asks_or_idle c).2.imp_left And.left⟩

/-- After any run, every model was built for its stage. -/
theorem isSound_run (setup : Setup S) (calls : List (Call S)) :
    (({} : Session S).run setup calls).IsSound setup := by
  induction calls using List.reverseRecOn with
  | nil => exact isSound_new setup
  | append_singleton calls c ih =>
      rw [run_concat]
      exact (ih.solve c).1

/-- If exactly the calls that break a property of new sessions make it fail, then it holds in every
state that a run comes through exactly if no call of the run breaks it. -/
theorem forall_run_iff {P : Session S → Prop} {Breaks : Session S → Call S → Prop} (hnew : P {})
    (hstep : ∀ s c, s.IsSound setup → P s → (P (s.after setup c) ↔ ¬ Breaks s c))
    (calls : List (Call S)) :
    (∀ before, before <+: calls → P (({} : Session S).run setup before)) ↔
      ∀ before c, before ++ [c] <+: calls → ¬ Breaks (({} : Session S).run setup before) c := by
  constructor
  · intro h before c hprefix
    have hbefore := h before ((List.prefix_append before [c]).trans hprefix)
    rw [← hstep _ c (isSound_run setup before) hbefore, ← run_concat]
    exact h (before ++ [c]) hprefix
  · intro h before
    induction before using List.reverseRecOn with
    | nil => exact fun _ => hnew
    | append_singleton before c ih =>
        intro hprefix
        rw [run_concat, hstep _ c (isSound_run setup before)
          (ih ((List.prefix_append before [c]).trans hprefix))]
        exact h before c hprefix

end Session

end Bellman
