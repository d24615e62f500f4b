import Bellman.Proofs.Session.Course
import Bellman.Proofs.Session.Tally
import Mathlib.Algebra.BigOperators.Group.Finset.Piecewise
import Mathlib.Data.List.SplitBy

/-!
# How often models are built

A call is effective if it can be read and its stage has a model for the value function, or one can
be built. If value functions only grow, by cuts that fit, then the model of a stage is the one that
the last effective call for it has left: it belongs to the value function of that call, and has its
cuts. So a program is built exactly when a stage is first solved, and when its value function is
another one than at the last effective call for the stage. Added up over the stages, these are the
blocks of consecutive effective calls with one value function.
-/

namespace Bellman

open Data

section Blocks

variable {α : Type} (r : α → α → Bool)

theorem length_splitBy_loop_concat (l : List α) (a b : α) (block : List α)
    (blocks : List (List α)) :
    (List.splitBy.loop r (l ++ [a]) b block blocks).length =
      (List.splitBy.loop r l b block blocks).length +
        if (b :: l).getLast?.any (r · a) then 0 else 1 := by
  induction l generalizing b block blocks with
  | nil =>
      rw [List.nil_append, List.splitBy.loop, List.splitBy.loop]
      cases hab : r b a <;> simp [List.splitBy.loop, hab]
  | cons c l ih =>
      rw [List.cons_append, List.splitBy.loop, List.splitBy.loop, List.getLast?_cons_cons]
      cases r b c with
      | false => exact ih c _ _
      | true => exact ih c _ _

/-- An element that is related to the last one of a list joins its block, and any other begins one.
-/
theorem length_splitBy_concat (l : List α) (a : α) :
    ((l ++ [a]).splitBy r).length =
      (l.splitBy r).length + if l.getLast?.any (r · a) then 0 else 1 := by
  cases l with
  | nil => rfl
  | cons b l => exact length_splitBy_loop_concat r l a b [] []

end Blocks

variable {S : Type}

namespace Call

/-- Whether two calls have the same value function. -/
def isOfSame (c d : Call S) : Bool :=
  c.function.id == d.function.id

/-- The number of blocks of consecutive calls with one value function. -/
def blocks (calls : List (Call S)) : Nat :=
  (calls.splitBy isOfSame).length

/-- Whether the value function of a call has only grown until another one, if it is the same: cuts
that fit the problem were added. -/
def GrowsInto (problem : Problem S) (c d : Call S) : Prop :=
  c.function.id = d.function.id → ∃ added,
    d.function.function.cuts = c.function.function.cuts ++ added ∧
    ∀ cut ∈ added, (Value.num problem.states).isCount cut.dim = true

theorem blocks_concat (calls : List (Call S)) (c : Call S) :
    blocks (calls ++ [c]) = blocks calls + if calls.getLast?.any (·.isOfSame c) then 0 else 1 :=
  length_splitBy_concat isOfSame calls c

/-- Calls with one value function are one block. -/
theorem blocks_of_forall {calls : List (Call S)} (hne : calls ≠ [])
    (h : ∀ c ∈ calls, ∀ d ∈ calls, c.function.id = d.function.id) : blocks calls = 1 := by
  have hpairs : calls.Pairwise fun c d => c.isOfSame d = true :=
    List.pairwise_of_forall_mem_list fun c hc d hd => beq_iff_eq.mpr (h c hc d hd)
  rw [blocks, List.splitBy_of_isChain hne hpairs.isChain, List.length_singleton]

end Call

namespace Session

theorem ofStage_concat (stage : Int) (calls : List (Call S)) (c : Call S) :
    ofStage stage (calls ++ [c]) =
      if c.stage = stage then ofStage stage calls ++ [c] else ofStage stage calls := by
  rw [ofStage, ofStage, List.filter_append, List.filter_singleton]
  split <;> simp_all

/-- A further call begins a block of its stage, or none at all. -/
theorem sum_blocks_concat {stages : Finset Int} (calls : List (Call S)) {c : Call S}
    (hc : c.stage ∈ stages) :
    ∑ t ∈ stages, Call.blocks (ofStage t (calls ++ [c])) =
      (∑ t ∈ stages, Call.blocks (ofStage t calls)) +
        if (ofStage c.stage calls).getLast?.any (·.isOfSame c) then 0 else 1 := by
  have hblocks : ∀ t, Call.blocks (ofStage t (calls ++ [c])) =
      Call.blocks (ofStage t calls) +
        if c.stage = t then if (ofStage c.stage calls).getLast?.any (·.isOfSame c) then 0 else 1
        else 0 := by
    intro t
    rw [ofStage_concat]
    by_cases ht : c.stage = t
    · rw [if_pos ht, if_pos ht, Call.blocks_concat, ht]
    · rw [if_neg ht, if_neg ht, Nat.add_zero]
  simp only [hblocks, Finset.sum_add_distrib, Finset.sum_ite_eq, hc, if_true]

/-- If each stage has one value function, there is one block for each stage. -/
theorem sum_blocks_eq_card {calls : List (Call S)}
    (hsame : ∀ c ∈ calls, ∀ d ∈ calls, c.stage = d.stage → c.function.id = d.function.id) :
    ∑ t ∈ (calls.map Call.stage).toFinset, Call.blocks (ofStage t calls) =
      (calls.map Call.stage).toFinset.card := by
  rw [Finset.card_eq_sum_ones]
  refine Finset.sum_congr rfl fun t ht => ?_
  obtain ⟨c, hc, hstage⟩ := List.mem_map.mp (List.mem_toFinset.mp ht)
  have hmem : c ∈ ofStage t calls := List.mem_filter.mpr ⟨hc, decide_eq_true hstage⟩
  refine Call.blocks_of_forall (List.ne_nil_of_mem hmem) fun a ha b hb => ?_
  obtain ⟨ha, hat⟩ := List.mem_filter.mp ha
  obtain ⟨hb, hbt⟩ := List.mem_filter.mp hb
  exact hsame a ha b hb ((of_decide_eq_true hat).trans (of_decide_eq_true hbt).symm)

end Session

/-- Whether a model is as an effective call leaves it: it belongs to the value function of the call,
and has rows for its cuts, in order and no others. -/
structure StageModel.IsLeftBy (m : StageModel S) (c : Call S) : Prop where
  functionId : m.functionId = c.function.id
  synced : m.synced = c.function.function.size
  cuts : m.program.cuts = c.function.function.cuts

namespace StageModel.IsLeftBy

variable {m : StageModel S} {c d : Call S} {problem : Problem S}

/-- A model that a call has left serves later ones with the same value function. -/
theorem serves_eq (h : m.IsLeftBy c) (hgrows : c.GrowsInto problem d) :
    m.serves d.function = c.isOfSame d := by
  rw [StageModel.serves, Call.isOfSame, h.functionId, h.synced]
  by_cases hid : c.function.id = d.function.id
  · obtain ⟨added, hadded, -⟩ := hgrows hid
    have hsize : c.function.function.size ≤ d.function.function.size := by
      rw [ValueFunction.size, ValueFunction.size, hadded, List.length_append]
      exact Nat.le_add_right _ _
    simp only [hid, decide_true, hsize, Bool.and_self, beq_self_eq_true]
  · simp only [hid, decide_false, Bool.false_and, beq_eq_false_iff_ne.mpr hid]

/-- The cuts that a later call adds are the ones that its value function has gained. -/
theorem cuts_append_newCuts (h : m.IsLeftBy c) (hgrows : c.GrowsInto problem d)
    (hid : c.function.id = d.function.id) :
    m.program.cuts ++ m.newCuts d.function.function = d.function.function.cuts ∧
      ∀ cut ∈ m.newCuts d.function.function,
        (Value.num problem.states).isCount cut.dim = true := by
  obtain ⟨added, hadded, hfits⟩ := hgrows hid
  have hnew : m.newCuts d.function.function = added := by
    rw [StageModel.newCuts, h.synced, hadded, ValueFunction.size, List.drop_left]
  rw [hnew, h.cuts, hadded]
  exact ⟨rfl, hfits⟩

end StageModel.IsLeftBy

variable [Scalar S] [Zero S] [One S] [Neg S] [Add S] [Sub S] [Mul S]
variable [LE S] [DecidableLE S] [LT S] [DecidableLT S]

namespace Session

/-- Whether a call is effective: it can be read, and its stage has a model for the value function or
one can be built. -/
def isEffective (setup : Setup S) (s : Session S) (c : Call S) : Bool :=
  (readRequest setup c.stage c.state c.noise c.index).isOk &&
    ((s.model? c.stage).any (·.serves c.function) ||
      (StageProgram.build setup.problem setup.params c.stage c.function.function).isOk)

/-- The effective calls of a run. -/
def effective (setup : Setup S) (s : Session S) : List (Call S) → List (Call S)
  | [] => []
  | c :: calls =>
    let rest := effective setup (s.after setup c) calls
    if s.isEffective setup c then c :: rest else rest

variable {setup : Setup S} {s : Session S} {c : Call S} {calls : List (Call S)}

theorem effective_concat (setup : Setup S) (s : Session S) (calls : List (Call S)) (c : Call S) :
    s.effective setup (calls ++ [c]) =
      s.effective setup calls ++ if (s.run setup calls).isEffective setup c then [c] else [] := by
  induction calls generalizing s with
  | nil => rfl
  | cons d calls ih =>
      simp only [List.cons_append, effective, ih, run, List.foldl_cons]
      split <;> rfl

theorem effective_sublist (setup : Setup S) (s : Session S) (calls : List (Call S)) :
    (s.effective setup calls).Sublist calls := by
  induction calls generalizing s with
  | nil => exact List.Sublist.slnil
  | cons c calls ih =>
      simp only [effective]
      split
      · exact (ih _).cons_cons c
      · exact (ih _).cons c

/-- A call that is not effective changes nothing. -/
theorem after_of_not_isEffective (h : s.isEffective setup c = false) : s.after setup c = s := by
  cases hread : readRequest setup c.stage c.state c.noise c.index with
  | error e => exact after_of_rejected hread
  | ok r =>
      simp only [isEffective, hread, Except.isOk, Except.toBool, Bool.true_and,
        Bool.or_eq_false_iff, Option.any_eq_false] at h
      obtain ⟨hserves, hbuild⟩ := h
      rcases stageModel_of_not_serves setup hserves with
        ⟨e, -, hstage⟩ | ⟨model, base, hbuilt, -⟩
      · exact after_of_unserved hread hstage
      · rw [hbuilt] at hbuild
        cases hbuild

/-- An effective call reaches a model, if a backend can be set up and all new cuts fit. -/
theorem IsSound.syncs_of_isEffective (hsound : s.IsSound setup)
    (hbackend : setup.backend.refusal = none) (h : s.isEffective setup c = true)
    (hfits : ∀ m, s.model? c.stage = some m → m.serves c.function = true →
      ∀ cut ∈ m.newCuts c.function.function,
        (Value.num setup.problem.states).isCount cut.dim = true) :
    ∃ q, s.Syncs setup c q := by
  cases hread : readRequest setup c.stage c.state c.noise c.index with
  | error e =>
      rw [isEffective, hread] at h
      cases h
  | ok r =>
      rcases s.serves_or_not c.stage c.function with ⟨m, hm, hserves⟩ | hunserved
      · apply hsound.syncs_of_serves hread hm hserves
        intro cut hcut
        have hstates := (hsound c.stage m hm).toCount_states
        exact Number.eq_of_isCount hstates (hfits m hm hserves cut hcut)
      · cases hbuild :
            StageProgram.build setup.problem setup.params c.stage c.function.function with
        | ok built => exact hsound.exists_syncs ⟨⟨r, hread⟩, ⟨built, hbuild⟩, hbackend⟩
        | error e =>
            have hnone : (s.model? c.stage).any (·.serves c.function) = false :=
              (Option.any_eq_false _ _).mpr hunserved
            rw [isEffective, hread, hnone, hbuild] at h
            cases h

/-- A call that reaches a model has one built exactly if none serves it. -/
theorem IsSound.builds_of_reaches (hsound : s.IsSound setup)
    (hreaches : s.reaches setup c = true) :
    (s.after setup c).builds =
      s.builds + if (s.model? c.stage).any (·.serves c.function) then 0 else 1 := by
  obtain ⟨m, hpast⟩ : ∃ m, Inherits setup s c m := by
    rcases hsound.puts_or_mislays_or_idles c with ⟨_, m, hputs⟩ | ⟨_, m, hmislays⟩ | hidles
    · exact ⟨m, hputs.past⟩
    · exact ⟨m, hmislays.past⟩
    · exact absurd (hreaches.symm.trans hidles.unreached) Bool.noConfusion
  cases hpast with
  | found m₀ model serves answers stored builds =>
      rw [builds, model, Option.any_some, serves]
      rfl
  | built unserved answers stored builds =>
      have hnone : (s.model? c.stage).any (·.serves c.function) = false :=
        (Option.any_eq_false _ _).mpr unserved
      rw [builds, hnone]
      rfl

/-- Whether the models of a session are the ones that the last of some calls for each stage leave.
-/
structure Stands (s : Session S) (calls : List (Call S)) : Prop where
  some : ∀ stage m, s.model? stage = some m →
    ∃ c, (ofStage stage calls).getLast? = some c ∧ m.IsLeftBy c
  none : ∀ stage, s.model? stage = none → ofStage stage calls = []

omit [Scalar S] [Zero S] [One S] [Neg S] [Add S] [Sub S] [Mul S] [LE S] [DecidableLE S] [LT S]
  [DecidableLT S] in
theorem Stands.any_serves_eq {problem : Problem S} (h : s.Stands calls)
    (hgrows : ∀ d ∈ calls, d.GrowsInto problem c) :
    (s.model? c.stage).any (·.serves c.function) =
      (ofStage c.stage calls).getLast?.any (·.isOfSame c) := by
  cases hm : s.model? c.stage with
  | none =>
      rw [h.none c.stage hm]
      rfl
  | some m =>
      obtain ⟨d, hd, hleft⟩ := h.some c.stage m hm
      rw [hd, Option.any_some, Option.any_some]
      exact hleft.serves_eq (hgrows d (List.mem_filter.mp (List.mem_of_getLast? hd)).1)

/-- After an effective call the models are the ones that it and the calls before it leave, and a
program was built exactly if the last call for the stage had another value function. -/
theorem Stands.after (h : s.Stands calls) (hsound : s.IsSound setup)
    (hbackend : setup.backend.refusal = .none)
    (hgrows : ∀ d ∈ calls, d.GrowsInto setup.problem c)
    (heffective : s.isEffective setup c = true) :
    (s.after setup c).Stands (calls ++ [c]) ∧
      (s.after setup c).builds =
        s.builds + if (ofStage c.stage calls).getLast?.any (·.isOfSame c) then 0 else 1 := by
  have hnew : ∀ m, s.model? c.stage = .some m → m.serves c.function = true →
      m.program.cuts ++ m.newCuts c.function.function = c.function.function.cuts ∧
        ∀ cut ∈ m.newCuts c.function.function,
          (Value.num setup.problem.states).isCount cut.dim = true := by
    intro m hm hserves
    obtain ⟨d, hd, hleft⟩ := h.some c.stage m hm
    have hgrows' := hgrows d (List.mem_filter.mp (List.mem_of_getLast? hd)).1
    rw [hleft.serves_eq hgrows'] at hserves
    exact hleft.cuts_append_newCuts hgrows' (beq_iff_eq.mp hserves)
  obtain ⟨q, hsyncs⟩ := hsound.syncs_of_isEffective hbackend heffective
    fun m hm hserves => (hnew m hm hserves).2
  have hrows : s.rowsFor c = c.function.function.cuts := by
    rcases s.serves_or_not c.stage c.function with ⟨m, hm, hserves⟩ | hunserved
    · rw [rowsFor_of_serves hm hserves]
      exact (hnew m hm hserves).1
    · exact rowsFor_of_not_serves hunserved
  obtain ⟨m, hmodels, hid, hsynced, hcuts⟩ := hsyncs.model
  refine ⟨⟨?_, ?_⟩, ?_⟩
  · intro stage m' hm'
    rw [hmodels] at hm'
    rw [ofStage_concat]
    by_cases hstage : stage = c.stage
    · rw [if_pos hstage] at hm'
      rw [if_pos hstage.symm, List.getLast?_concat]
      obtain rfl := Option.some.inj hm'
      exact ⟨c, rfl, hid, hsynced, hcuts.trans hrows⟩
    · rw [if_neg hstage] at hm'
      rw [if_neg (Ne.symm hstage)]
      exact h.some stage m' hm'
  · intro stage hnone
    rw [hmodels] at hnone
    rw [ofStage_concat]
    by_cases hstage : stage = c.stage
    · rw [if_pos hstage] at hnone
      cases hnone
    · rw [if_neg hstage] at hnone
      rw [if_neg (Ne.symm hstage)]
      exact h.none stage hnone
  · rw [hsound.builds_of_reaches hsyncs.reaches, h.any_serves_eq hgrows]

/-- After a run in which value functions only grow, the models are the ones that the effective calls
leave, and a program was built for every block of effective calls for a stage with one value
function. -/
theorem stands_run (hbackend : setup.backend.refusal = .none)
    (hgrows : calls.Pairwise (Call.GrowsInto setup.problem)) :
    (({} : Session S).run setup calls).Stands (({} : Session S).effective setup calls) ∧
    ∀ stages : Finset Int, (∀ c ∈ ({} : Session S).effective setup calls, c.stage ∈ stages) →
      (({} : Session S).run setup calls).builds =
        ∑ t ∈ stages, Call.blocks (ofStage t (({} : Session S).effective setup calls)) := by
  induction calls using List.reverseRecOn with
  | nil =>
      refine ⟨⟨?_, fun _ _ => rfl⟩, ?_⟩
      · intro stage m hm
        cases hm
      · intro stages _
        exact (Finset.sum_const_zero (s := stages)).symm
  | append_singleton calls c ih =>
      obtain ⟨hearlier, -, hlast⟩ := List.pairwise_append.mp hgrows
      obtain ⟨hstands, hbuilds⟩ := ih hearlier
      rw [run_concat, effective_concat]
      cases heffective : (({} : Session S).run setup calls).isEffective setup c with
      | false =>
          rw [if_neg Bool.false_ne_true, List.append_nil, after_of_not_isEffective heffective]
          exact ⟨hstands, hbuilds⟩
      | true =>
          have hgrows' : ∀ d ∈ ({} : Session S).effective setup calls,
              d.GrowsInto setup.problem c :=
            fun d hd => hlast d ((effective_sublist setup {} calls).subset hd) c
              List.mem_cons_self
          obtain ⟨hafter, hbuilt⟩ :=
            hstands.after (isSound_run setup calls) hbackend hgrows' heffective
          rw [if_pos rfl]
          refine ⟨hafter, ?_⟩
          intro stages hstages
          have hc : c.stage ∈ stages := hstages c List.mem_concat_self
          rw [sum_blocks_concat _ hc, hbuilt,
            hbuilds stages fun d hd => hstages d (List.mem_append_left _ hd)]

/-- How often models are built. Whatever the backend replies, if value functions only grow by cuts
that fit, then after any run the programs that were built, the backends that were set up and the
builds in the journal are as many as there are blocks of consecutive effective calls for a stage
with one value function, and calls that are not effective change nothing. If each stage always has
one value function, these are as many as the stages. And the model of a stage has the cuts of the
last effective call, each in its place. -/
theorem builds_run (hbackend : setup.backend.refusal = .none)
    (hgrows : calls.Pairwise (Call.GrowsInto setup.problem)) :
    let s := ({} : Session S).run setup calls
    let done := ({} : Session S).effective setup calls
    let stages := (done.map Call.stage).toFinset
    s.builds = ∑ t ∈ stages, Call.blocks (ofStage t done) ∧
    s.backends = s.builds ∧ s.notes.countP Note.isBuilt = s.builds ∧
    (∀ before c, (({} : Session S).run setup before).isEffective setup c = false →
      ({} : Session S).run setup (before ++ [c]) = ({} : Session S).run setup before) ∧
    ((∀ c ∈ done, ∀ d ∈ done, c.stage = d.stage → c.function.id = d.function.id) →
      s.builds = stages.card) ∧
    ∀ stage m, s.model? stage = some m → ∃ c, (ofStage stage done).getLast? = some c ∧
      m.program.cuts = c.function.function.cuts := by
  intro s done stages
  obtain ⟨hstands, hbuilds⟩ := stands_run hbackend hgrows
  have hsum := hbuilds stages fun c hc => List.mem_toFinset.mpr (List.mem_map_of_mem hc)
  have htallied : s.IsTallied := isTallied_new.run calls
  refine ⟨hsum, htallied.backends, htallied.notes, ?_, ?_, ?_⟩
  · intro before c hidle
    rw [run_concat, after_of_not_isEffective hidle]
  · intro hsame
    rw [hsum, sum_blocks_eq_card hsame]
  · intro stage m hm
    obtain ⟨c, hc, hleft⟩ := hstands.some stage m hm
    exact ⟨c, hc, hleft.cuts⟩

end Session

namespace Stock

/-- A call for a stage with a value function of some identity. -/
def callFor (stage : Int) (id : Nat) (cuts : List (Cut ℚ)) : Call ℚ :=
  ⟨stage, .list [.int 2], .list [.int 3], ⟨id, .int 1, cuts⟩, .null⟩

/-- Two value functions take turns at one stage, and one of them gains a cut that a call with a
state of the wrong dimension does not disturb. At another stage there is but one. -/
def turns : List (Call ℚ) :=
  [callFor 0 0 [], callFor 1 0 [], { callFor 0 1 [] with state := .list [] },
    callFor 0 0 [⟨[1], 0⟩], callFor 0 1 [], callFor 1 0 [⟨[1], 0⟩], callFor 0 0 [⟨[1], 0⟩]]

/-- A backend that always fails is asked for each turn, and four models are built. -/
theorem builds_turns :
    turns.Pairwise (Call.GrowsInto rebuilding.problem) ∧
      (({} : Session ℚ).run rebuilding turns).builds =
        ∑ t ∈ ((({} : Session ℚ).effective rebuilding turns).map Call.stage).toFinset,
          Call.blocks (Session.ofStage t (({} : Session ℚ).effective rebuilding turns)) ∧
      (({} : Session ℚ).run rebuilding turns).builds = 4 := by
  have hfits :
      (Value.num rebuilding.problem.states).isCount (Cut.dim (⟨[1], 0⟩ : Cut ℚ)) = true := by
    decide +kernel
  have hgrows : turns.Pairwise (Call.GrowsInto rebuilding.problem) := by
    simp [turns, callFor, Call.GrowsInto, hfits]
  exact ⟨hgrows, (Session.builds_run rfl hgrows).1, by decide +kernel⟩

end Stock

end Bellman
