import Bellman.Proofs.Session.Conclusion
import Bellman.Proofs.Session.Refusal

/-!
# No slot stays live

A slot is switched on when a model is targeted to a request, and pinned again after the backend has
replied, however the call ends from there: with a step, without a feasible one, with a status that
decides nothing, with a dual or a value missing, or with a fault of the backend. So between two
tasks all slots of all models are pinned, and no call ever finds a slot live that an earlier one
has left behind.
-/

namespace Bellman

open Data

variable {S : Type}

/-- Something that a session is asked to do: to solve a stage once, or for all values of its noise.
-/
inductive Task (S : Type) where
  | once (c : Call S)
  | scenarios (stage : Int) (state : Value) (f : NamedFunction S)

/-- The stage that a task is about. -/
def Task.stage : Task S → Int
  | .once c => c.stage
  | .scenarios stage _ _ => stage

variable [Scalar S] [Zero S] [Neg S] {setup : Setup S} {stage : Int}

/-- Whether the slots of a program rest: none is live, there is one for every value of the noise,
and all right-hand sides of all of them are at the sentinels that the parameters give. -/
structure StageProgram.Rests (setup : Setup S) (stage : Int) (p : StageProgram S) : Prop where
  live : p.live = none
  slots : ∃ law, setup.problem.law stage = .ok law ∧ p.slots.length = law.size
  sentinel : Scalar.read (.num setup.params.infinity) = .ok p.infinity
  lowers : ∀ slot ∈ p.slots, ∀ side ∈ slot.sides.lowers, side = -p.infinity
  uppers : ∀ slot ∈ p.slots, ∀ side ∈ slot.sides.uppers, side = p.infinity

/-- A program that was built for a stage, and then extended and retargeted, rests. -/
theorem StageProgram.IsFor.rests {p : StageProgram S} (h : p.IsFor setup stage)
    (hmode : setup.params.updateMode = .slotReuse) : p.Rests setup stage := by
  obtain ⟨dim, model, parts, cuts, hretargets⟩ := h
  obtain ⟨law, slots, hlaw, hslots, built⟩ := parts.exists_slots hmode
  have hrest := parts.isAtRest_program cuts
  have hall : p.slots = slots := by
    rw [hretargets.same]
    exact slots_of_slotted hslots
  have hinfinity : p.infinity = parts.infinity := by
    rw [hretargets.same]
    rfl
  have hpinned : ∀ slot ∈ p.slots, slot.sides.pinned p.infinity = slot.sides := by
    intro slot hslot
    rw [hinfinity]
    apply hrest.pinned
    rw [hall] at hslot
    rw [slots_of_slotted hslots]
    exact hslot
  refine ⟨?_, ⟨law, hlaw, ?_⟩, ?_, ?_, ?_⟩
  · rw [hretargets.same]
    rfl
  · rw [hall]
    exact built.length_eq.symm
  · rw [hinfinity]
    exact parts.infinity_eq
  · intro slot hslot side hside
    rw [← hpinned slot hslot, SlotSides.pinned, SlotSides.lowers_replace] at hside
    obtain ⟨_, -, rfl⟩ := List.mem_map.mp hside
    rfl
  · intro slot hslot side hside
    rw [← hpinned slot hslot, SlotSides.pinned, SlotSides.uppers_replace] at hside
    obtain ⟨_, -, rfl⟩ := List.mem_map.mp hside
    rfl

/-- The faults that come into a session from outside: from plain values and the problem, or from the
backend. -/
def Setup.Brings (setup : Setup S) (stage : Int) (e : Fault) : Prop :=
  setup.Raises stage e ∨ setup.backend.refusal = some e ∨
    ∃ asked p, setup.backend.reply asked p = .failed e

variable {live : Nat} {wanted : Number}

omit [Zero S] [Neg S] in
/-- A request is never refused for a slot that is live. -/
theorem Setup.Rejects.brings (h : setup.Rejects stage (.slotStillLive live wanted)) :
    setup.Brings stage (.slotStillLive live wanted) := by
  cases h with
  | raised _ hraises => exact .inl hraises

variable [One S] [Add S] [Sub S] [Mul S] [LE S] [DecidableLE S] [LT S] [DecidableLT S]
variable {s : Session S} {c : Call S}

namespace Session

/-- What comes of a task: the session after it, and outcomes or a fault. -/
def perform (setup : Setup S) (s : Session S) :
    Task S → Session S × Except Fault (List (Outcome S))
  | .once c => ((s.result setup c).1, (s.result setup c).2.map fun o => [o])
  | .scenarios stage state f => s.solveScenarios setup stage state f

/-- A session after one task after another, whether they end with outcomes or with a fault. -/
def afterTasks (setup : Setup S) (s : Session S) (tasks : List (Task S)) : Session S :=
  tasks.foldl (fun s task => (s.perform setup task).1) s

/-- A call that ends for a slot that is live was told so from outside. -/
theorem IsSound.brings_of_result (h : s.IsSound setup)
    (hresult : (s.result setup c).2 = .error (.slotStillLive live wanted)) :
    setup.Brings c.stage (.slotStillLive live wanted) := by
  cases h.course c with
  | unread e hread hcourse =>
      rw [hcourse] at hresult
      obtain rfl := Except.error.inj hresult
      exact (Setup.rejects_of_readRequest hread).brings
  | unbuilt e hbuild hcourse =>
      rw [hcourse] at hresult
      obtain rfl := Except.error.inj hresult
      exact (Setup.rejects_of_build hbuild).brings
  | refused e model hrefusal hcourse =>
      rw [hcourse] at hresult
      obtain rfl := Except.error.inj hresult
      exact .inr (.inl hrefusal)
  | stopped m hmodel hserves cut hcut hmisfit hcourse =>
      rw [hcourse] at hresult
      cases hresult
  | mislaid r m hmislays =>
      rw [hmislays.outcome] at hresult
      cases hresult
  | put r m hputs =>
      rw [hputs.outcome] at hresult
      rcases StageModel.error_of_receive hresult with
        hfailed | ⟨_, _, _, hended⟩ | ⟨m', termination, hlacks⟩
      · exact .inr (.inr ⟨_, _, hfailed⟩)
      · cases hended
      · cases hlacks with
        | number v _ hv => exact .inl (.scalar v _ hv)

/-- Calls one after the other leave a sound session, and end with a fault only if one of them does.
-/
theorem IsSound.solveEach (h : s.IsSound setup) (stage : Int) (state : Value) (f : NamedFunction S)
    (k : Nat) (rest : List (List S)) :
    (s.solveEach setup stage state f k rest).1.IsSound setup ∧
      ∀ e, (s.solveEach setup stage state f k rest).2 = .error e →
        ∃ (s' : Session S) (c : Call S), s'.IsSound setup ∧ c.stage = stage ∧
          (s'.result setup c).2 = .error e := by
  induction rest generalizing s k with
  | nil =>
      refine ⟨h, ?_⟩
      intro e he
      cases he
  | cons noise rest ih =>
      let c : Call S := ⟨stage, state, Scalar.writeVector noise, f, .int k⟩
      have hafter : (s.result setup c).1.IsSound setup := (h.solve c).1
      simp only [Session.solveEach]
      split
      · next s' e hsolve =>
          have hresult : s.result setup c = (s', .error e) := hsolve
          rw [hresult] at hafter
          refine ⟨hafter, ?_⟩
          intro e' he'
          obtain rfl := Except.error.inj he'
          exact ⟨s, c, h, rfl, congrArg Prod.snd hresult⟩
      · next s' o hsolve =>
          have hresult : s.result setup c = (s', .ok o) := hsolve
          rw [hresult] at hafter
          obtain ⟨hsound, herror⟩ := ih hafter (k + 1)
          split
          · next s'' e hrest =>
              rw [hrest] at hsound herror
              exact ⟨hsound, herror⟩
          · next s'' os hrest =>
              rw [hrest] at hsound
              refine ⟨hsound, ?_⟩
              intro e he
              cases he

/-- A task leaves a sound session, and ends for a slot that is live only if it was told so from
outside. -/
theorem IsSound.perform (h : s.IsSound setup) (task : Task S) :
    (s.perform setup task).1.IsSound setup ∧
      ∀ live wanted, (s.perform setup task).2 = .error (.slotStillLive live wanted) →
        setup.Brings task.stage (.slotStillLive live wanted) := by
  cases task with
  | once c =>
      refine ⟨(h.solve c).1, ?_⟩
      intro live wanted herror
      apply h.brings_of_result
      cases hresult : (s.result setup c).2 with
      | ok o =>
          simp only [Session.perform, hresult] at herror
          cases herror
      | error e =>
          simp only [Session.perform, hresult] at herror
          obtain rfl := Except.error.inj herror
          rfl
  | scenarios stage state f =>
      simp only [Session.perform, Task.stage, solveScenarios]
      cases hlaw : setup.problem.law stage with
      | error e =>
          refine ⟨h, ?_⟩
          intro live wanted herror
          obtain rfl := Except.error.inj herror
          exact (Setup.rejects_of_law hlaw).brings
      | ok law =>
          obtain ⟨hsound, herror⟩ := h.solveEach stage state f 0 law.support
          refine ⟨hsound, ?_⟩
          intro live wanted he
          obtain ⟨s', c, hs', rfl, hresult⟩ := herror _ he
          exact hs'.brings_of_result hresult

theorem isSound_afterTasks (setup : Setup S) (tasks : List (Task S)) :
    (({} : Session S).afterTasks setup tasks).IsSound setup := by
  induction tasks using List.reverseRecOn with
  | nil => exact isSound_new setup
  | append_singleton tasks task ih =>
      rw [afterTasks, List.foldl_append]
      exact (ih.perform task).1

/-- With slots, every model of a session rests after any tasks, whatever the backend has done. So
whatever is asked next, a fault for a slot that is still live never comes from the session itself.
-/
theorem rests_afterTasks (setup : Setup S) (hmode : setup.params.updateMode = .slotReuse)
    (tasks : List (Task S)) :
    let s := ({} : Session S).afterTasks setup tasks
    (∀ stage m, s.model? stage = some m → m.program.Rests setup stage) ∧
      ∀ task live wanted, (s.perform setup task).2 = .error (.slotStillLive live wanted) →
        setup.Brings task.stage (.slotStillLive live wanted) := by
  intro s
  have hsound := isSound_afterTasks setup tasks
  constructor
  · intro stage m hmodel
    exact (hsound stage m hmodel).rests hmode
  · intro task live wanted herror
    exact (hsound.perform task).2 live wanted herror

end Session

/-- A run in which the backend fails, ends without a decision, and ends with an optimum of which
nothing is known: each time the slot that was live is pinned again. In between, a floating number is
given for an index, and no slot is switched on. -/
theorem Stock.rests_afterFaults :
    let setup : Setup ℚ := ⟨problem .linear, params .slotReuse, .scripted
      [.failed (.backendBroke none), .ended .unknown none none, .ended .optimal none none]⟩
    let tasks : List (Task ℚ) := [.once (call 2 3 [] .null), .once (call 2 1 [] .null),
      .once (call 2 3 [] (.num (.real 1))), .scenarios 0 (.list [.int 2]) ⟨0, future⟩]
    let s := ({} : Session ℚ).afterTasks setup tasks
    setup.params.updateMode = .slotReuse ∧ s.asked.length = 3 ∧ (s.model? 0).isSome ∧
      (∀ stage m, s.model? stage = some m → m.program.Rests setup stage) ∧
      ∀ task live wanted, (s.perform setup task).2 = .error (.slotStillLive live wanted) →
        setup.Brings task.stage (.slotStillLive live wanted) := by
  intro setup tasks s
  exact ⟨rfl, by decide +kernel, by decide +kernel, Session.rests_afterTasks setup rfl tasks⟩

end Bellman
