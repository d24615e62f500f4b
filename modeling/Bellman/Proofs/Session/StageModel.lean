import Bellman.Proofs.Program.Retarget

/-!
# Stage models through a solve

A solve takes a stage model through three steps: it gains the cuts that its value function has
gained, it is targeted to the request, and after the backend has replied its slot is released. What
the backend replies changes neither the program nor what is known about its cuts.
-/

namespace Bellman

open Data

variable {S : Type}

namespace StageModel

theorem addCuts_of_forall {p : StageProgram S} {cuts : List (Cut S)}
    (h : ∀ c ∈ cuts, c.dim = p.dimStates) :
    addCuts p cuts = ({ p with cuts := p.cuts ++ cuts }, none) := by
  induction cuts generalizing p with
  | nil => simp only [addCuts, List.append_nil]
  | cons c cuts ih =>
      obtain ⟨hc, hcuts⟩ := List.forall_mem_cons.mp h
      simp only [addCuts, StageProgram.addCut_eq_ok_iff.mpr ⟨hc, rfl⟩]
      refine (ih (p := { p with cuts := p.cuts ++ [c] }) hcuts).trans ?_
      simp only [List.append_assoc, List.singleton_append]

/-- A model with rows for the cuts that its value function has gained since they were last counted.
-/
def upToDate (m : StageModel S) (f : ValueFunction S) : StageModel S :=
  { m with
    program := { m.program with cuts := m.program.cuts ++ f.cuts.drop m.synced }
    synced := f.size }

theorem sync_of_forall {m : StageModel S} {f : ValueFunction S}
    (h : ∀ c ∈ f.cuts.drop m.synced, c.dim = m.program.dimStates) :
    ∃ notes, m.sync f = (m.upToDate f, notes, none) := by
  unfold sync
  split
  · next hsize =>
      have drop : f.cuts.drop m.synced = [] := List.drop_eq_nil_of_le (Nat.le_of_eq hsize)
      refine ⟨[], ?_⟩
      rw [upToDate, drop, List.append_nil, hsize]
  · next hsize =>
      rw [addCuts_of_forall h]
      exact ⟨_, rfl⟩

theorem aim_of_aimed [Zero S] {m : StageModel S} {r : Request S} {q : StageProgram S}
    (h : m.program.aimed r = .ok q) :
    ∃ notes, m.aim r = ({ m with program := q }, notes, none) := by
  unfold aim
  unfold StageProgram.aimed at h
  cases hindex : r.index with
  | none =>
      simp only [hindex, Except.ok.injEq] at h
      exact ⟨_, by rw [← h]⟩
  | some k =>
      simp only [hindex] at h
      simp only [h]
      exact ⟨_, rfl⟩

/-- A model whose program cannot be aimed has its state set. -/
theorem aim_of_error [Zero S] {m : StageModel S} {r : Request S} {e : Fault}
    (h : m.program.aimed r = .error e) :
    m.aim r = ({ m with program := m.program.setState r.state }, [], some e) := by
  unfold aim
  unfold StageProgram.aimed at h
  cases hindex : r.index with
  | none =>
      simp only [hindex] at h
      cases h
  | some k =>
      simp only [hindex] at h
      simp only [h]

theorem fst_release [Neg S] (m : StageModel S) (r : Request S) :
    (m.release r).1 = { m with program := m.program.released r } := by
  unfold release StageProgram.released
  cases r.slot? <;> rfl

/-- What a model keeps whatever the backend replies. -/
structure Keeps (m m' : StageModel S) : Prop where
  program : m'.program = m.program
  functionId : m'.functionId = m.functionId
  synced : m'.synced = m.synced

variable [Scalar S] [Zero S] [One S] [Add S] [Mul S] [LE S] [DecidableLE S]

theorem keeps_conclude (m : StageModel S) (solver : String) (r : Request S) (status : SolveStatus)
    (termination : Option String) : m.Keeps (m.conclude solver r status termination).1 := by
  unfold conclude
  cases status with
  | optimal =>
      dsimp only
      split <;> exact ⟨rfl, rfl, rfl⟩
  | _ => exact ⟨rfl, rfl, rfl⟩

theorem keeps_receive (m : StageModel S) (solver : String) (r : Request S) (reply : Reply S) :
    m.Keeps (m.receive solver r reply).1 := by
  cases reply with
  | failed cause => exact ⟨rfl, rfl, rfl⟩
  | ended status termination stored =>
      obtain ⟨program, functionId, synced⟩ := keeps_conclude
        { m with answers := m.answers + 1, stored := m.stored.store (stored.getD {}) }
        solver r status termination
      exact ⟨program, functionId, synced⟩

/-- The model that is left when the backend has replied to a request. -/
def answered [Neg S] (m : StageModel S) (solver : String) (r : Request S) (reply : Reply S) :
    StageModel S :=
  ((((m.enter .ready).1.enter .solving).1.receive solver r reply).1.release r).1

section Answered

variable [Neg S] (m : StageModel S) (solver : String) (r : Request S) (reply : Reply S)

@[simp] theorem program_answered :
    (m.answered solver r reply).program = m.program.released r := by
  rw [answered, fst_release]
  exact congrArg (·.released r) (keeps_receive _ solver r reply).program

@[simp] theorem functionId_answered : (m.answered solver r reply).functionId = m.functionId := by
  rw [answered, fst_release]
  exact (keeps_receive _ solver r reply).functionId

@[simp] theorem synced_answered : (m.answered solver r reply).synced = m.synced := by
  rw [answered, fst_release]
  exact (keeps_receive _ solver r reply).synced

end Answered

end StageModel

end Bellman
