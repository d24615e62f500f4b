import Bellman.Proofs.Session.Run

/-!
# Tallies of a session

A session counts the programs that it builds and the backends that it sets up, and notes every
program that is built. The three agree after every call: nothing but building a program is counted
or noted as that, and a program that is built is counted and noted even if no backend can be set up
for it.
-/

namespace Bellman

open Data

variable {S : Type}

/-- Whether a note says that a program was built. -/
def Note.isBuilt : Note → Bool
  | .built .. => true
  | _ => false

namespace StageModel

theorem not_isBuilt_of_sync (m : StageModel S) (f : ValueFunction S) :
    ∀ n ∈ (m.sync f).2.1, n.isBuilt = false := by
  unfold sync
  split
  · exact List.forall_mem_nil _
  · split
    · exact List.forall_mem_nil _
    · exact List.forall_mem_singleton.mpr rfl

theorem not_isBuilt_of_aim [Zero S] (m : StageModel S) (r : Request S) :
    ∀ n ∈ (m.aim r).2.1, n.isBuilt = false := by
  unfold aim
  dsimp only
  split
  · exact List.forall_mem_nil _
  · split
    · exact List.forall_mem_map.mpr fun _ _ => rfl
    · exact List.forall_mem_nil _

theorem not_isBuilt_of_release [Neg S] (m : StageModel S) (r : Request S) :
    ∀ n ∈ (m.release r).2, n.isBuilt = false := by
  unfold release
  split
  · exact List.forall_mem_nil _
  · exact List.forall_mem_singleton.mpr rfl

theorem not_isBuilt_of_receive [Scalar S] [Zero S] [One S] [Add S] [Mul S] [LE S] [DecidableLE S]
    (m : StageModel S) (solver : String) (r : Request S) (reply : Reply S) :
    ∀ n ∈ (m.receive solver r reply).2.1, n.isBuilt = false := by
  have hnone : ∀ n ∈ ([] : List Note), n.isBuilt = false := List.forall_mem_nil _
  have hphase : ∀ stage before after, (Note.phase stage before after).isBuilt = false :=
    fun _ _ _ => rfl
  cases reply with
  | failed cause => exact hnone
  | ended status termination stored =>
      simp only [receive, conclude]
      cases status with
      | infeasible =>
          exact List.forall_mem_cons.mpr ⟨hphase _ _ _, List.forall_mem_singleton.mpr rfl⟩
      | optimal =>
          dsimp only
          split
          · exact List.forall_mem_singleton.mpr (hphase _ _ _)
          · exact hnone
      | _ => exact List.forall_mem_singleton.mpr (hphase _ _ _)

end StageModel

namespace Session

/-- Whether as many backends were to be set up, and as many programs noted as built, as programs
were counted. -/
structure IsTallied (s : Session S) : Prop where
  backends : s.backends = s.builds
  notes : s.notes.countP Note.isBuilt = s.builds

variable {s : Session S} {notes : List Note}

theorem isTallied_new : ({} : Session S).IsTallied :=
  ⟨rfl, rfl⟩

theorem IsTallied.record (h : s.IsTallied) (hnotes : ∀ n ∈ notes, n.isBuilt = false) :
    (s.record notes).IsTallied := by
  refine ⟨h.backends, ?_⟩
  have hnone : notes.countP Note.isBuilt = 0 :=
    List.countP_eq_zero.mpr fun n hn => Bool.eq_false_iff.mp (hnotes n hn)
  rw [Session.record, List.countP_append, hnone]
  exact h.notes

theorem IsTallied.counted (h : s.IsTallied) (setup : Setup S) (stage : Int) (model : CostModel)
    (f : NamedFunction S) : (s.counted setup stage model f).IsTallied := by
  refine ⟨congrArg Nat.succ h.backends, ?_⟩
  rw [Session.counted, Session.record, List.countP_append]
  exact congrArg Nat.succ h.notes

variable [Scalar S] [Zero S] [Neg S] {setup : Setup S}

theorem IsTallied.stageModel (h : s.IsTallied) (stage : Int) (f : NamedFunction S) :
    (s.stageModel setup stage f).1.IsTallied := by
  rcases s.serves_or_not stage f with ⟨m, hm, hserves⟩ | hunserved
  · rw [stageModel_of_serves hm hserves]
    exact h
  · rcases stageModel_of_not_serves setup hunserved with
      ⟨e, -, hstage⟩ | ⟨model, base, -, ⟨e, -, hstage⟩ | ⟨-, hstage⟩⟩
    · rw [hstage]
      exact h
    · rw [hstage]
      exact h.counted setup stage model f
    · rw [hstage]
      exact ⟨(h.counted setup stage model f).backends, (h.counted setup stage model f).notes⟩

variable [One S] [Add S] [Mul S] [LE S] [DecidableLE S]

theorem IsTallied.ask (h : s.IsTallied) (stage : Int) (m : StageModel S) (r : Request S) :
    (s.ask setup stage m r).1.IsTallied := by
  have hput : ∀ (asked : List (StageProgram S)) (m' : StageModel S),
      (({ s with asked } : Session S).put stage m').IsTallied :=
    fun _ _ => ⟨h.backends, h.notes⟩
  refine (hput _ _).record ?_
  simp only [List.forall_mem_append]
  refine ⟨⟨?_, StageModel.not_isBuilt_of_receive _ _ r _⟩, StageModel.not_isBuilt_of_release _ r⟩
  exact List.forall_mem_cons.mpr ⟨rfl, List.forall_mem_singleton.mpr rfl⟩

theorem IsTallied.solveModel (h : s.IsTallied) (stage : Int) (m : StageModel S)
    (f : ValueFunction S) (r : Request S) : (s.solveModel setup stage m f r).1.IsTallied := by
  have hput : ∀ m' : StageModel S, (s.put stage m').IsTallied := fun _ => ⟨h.backends, h.notes⟩
  have hsynced := m.not_isBuilt_of_sync f
  unfold Session.solveModel
  split
  · next m₁ notes e hsync =>
      rw [hsync] at hsynced
      exact (hput m₁).record hsynced
  · next m₁ notes hsync =>
      rw [hsync] at hsynced
      have haimed := m₁.not_isBuilt_of_aim r
      split
      · next m₂ notes' e haim =>
          rw [haim] at haimed
          exact (hput m₂).record (List.forall_mem_append.mpr ⟨hsynced, haimed⟩)
      · next m₂ notes' haim =>
          rw [haim] at haimed
          exact (h.record (List.forall_mem_append.mpr ⟨hsynced, haimed⟩)).ask stage m₂ r

variable [Sub S] [LT S] [DecidableLT S]

/-- Whatever comes of a call, the tallies agree after it if they did before. -/
theorem IsTallied.after (h : s.IsTallied) (c : Call S) : (s.after setup c).IsTallied := by
  have hstage : (s.stageModel setup c.stage c.function).1.IsTallied :=
    h.stageModel c.stage c.function
  unfold Session.after Session.solve
  split
  · exact h
  · next r _ =>
      split
      · next s' e hfault =>
          rw [hfault] at hstage
          exact hstage
      · next s' m hmodel =>
          rw [hmodel] at hstage
          exact hstage.solveModel c.stage m c.function.function r

/-- The tallies of a session agree after every run. -/
theorem IsTallied.run (h : s.IsTallied) (calls : List (Call S)) :
    (s.run setup calls).IsTallied := by
  induction calls generalizing s with
  | nil => exact h
  | cons c calls ih => exact ih (h.after c)

end Session

end Bellman
