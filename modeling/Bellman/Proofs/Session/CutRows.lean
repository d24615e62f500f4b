import Bellman.Proofs.Session.History
import Bellman.Proofs.Session.Provenance
import Mathlib.Data.List.TakeWhile

/-!
# Which cuts have rows

Before a stage is solved, its model gets rows for the cuts that the value function has gained since
they were last counted. The rows are added one by one, and the cuts are counted when all of them
have one. If a cut does not fit, the call ends there: the cuts before it have rows, but do not
count, and get their rows again when the next call comes.

So a call gives rows to all new cuts or to none, unless a cut that fits comes before one that does
not. The rows of a model are as many as the cuts that count as long as there is no such call.
-/

namespace Bellman

open Data

variable {S : Type}

namespace StageModel

theorem addCuts_of_exists {p : StageProgram S} {cuts : List (Cut S)}
    (h : ∃ cut ∈ cuts, cut.dim ≠ p.dimStates) :
    ∃ cut ∈ cuts, cut.dim ≠ p.dimStates ∧ addCuts p cuts =
      ({ p with cuts := p.cuts ++ cuts.takeWhile fun cut => cut.dim = p.dimStates },
        some (.dimension "cut lambdas" (.int p.dimStates) (.int cut.dim))) := by
  induction cuts generalizing p with
  | nil => simp at h
  | cons first cuts ih =>
      by_cases hfirst : first.dim = p.dimStates
      · have hrest : ∃ cut ∈ cuts, cut.dim ≠ p.dimStates := by
          obtain ⟨cut, hcut, hdim⟩ := h
          rcases List.mem_cons.mp hcut with rfl | hcut
          · exact absurd hfirst hdim
          · exact ⟨cut, hcut, hdim⟩
        obtain ⟨cut, hcut, hdim, hadd⟩ := ih (p := { p with cuts := p.cuts ++ [first] }) hrest
        refine ⟨cut, List.mem_cons_of_mem _ hcut, hdim, ?_⟩
        have htake : (first :: cuts).takeWhile (fun cut => decide (cut.dim = p.dimStates)) =
            first :: cuts.takeWhile fun cut => cut.dim = p.dimStates :=
          List.takeWhile_cons_of_pos (decide_eq_true hfirst)
        simp only [addCuts, StageProgram.addCut_eq_ok_iff.mpr ⟨hfirst, rfl⟩, htake]
        refine hadd.trans ?_
        simp only [List.append_assoc, List.singleton_append]
        rfl
      · refine ⟨first, List.mem_cons_self, hfirst, ?_⟩
        rw [List.takeWhile_cons_of_neg (by simpa using hfirst), List.append_nil]
        simp only [addCuts, StageProgram.addCut, hfirst, if_false]

/-- The cuts that a value function has gained since they were last counted. -/
def newCuts (m : StageModel S) (f : ValueFunction S) : List (Cut S) :=
  f.cuts.drop m.synced

/-- The new cuts before the first one that does not fit. -/
def fittingCuts (m : StageModel S) (f : ValueFunction S) : List (Cut S) :=
  (m.newCuts f).takeWhile fun cut => cut.dim = m.program.dimStates

/-- Whether a new cut that fits comes before one that does not. -/
def Splits (m : StageModel S) (f : ValueFunction S) : Prop :=
  m.fittingCuts f ≠ [] ∧ m.fittingCuts f ≠ m.newCuts f

variable {m : StageModel S} {f : ValueFunction S}

theorem fittingCuts_eq_newCuts_iff :
    m.fittingCuts f = m.newCuts f ↔ ∀ cut ∈ m.newCuts f, cut.dim = m.program.dimStates := by
  simp only [fittingCuts, List.takeWhile_eq_self_iff, decide_eq_true_eq]

theorem not_splits_of_forall (h : ∀ cut ∈ m.newCuts f, cut.dim = m.program.dimStates) :
    ¬ m.Splits f :=
  fun hsplits => hsplits.2 (fittingCuts_eq_newCuts_iff.mpr h)

/-- If there is a new cut that does not fit, the first new cut fits or none gets a row. -/
theorem splits_iff_of_exists (h : ∃ cut ∈ m.newCuts f, cut.dim ≠ m.program.dimStates) :
    m.Splits f ↔ m.fittingCuts f ≠ [] := by
  obtain ⟨cut, hcut, hdim⟩ := h
  exact and_iff_left fun heq => hdim (fittingCuts_eq_newCuts_iff.mp heq cut hcut)

/-- A model in which the new cuts before the first misfit have rows that do not count. -/
def stuck (m : StageModel S) (f : ValueFunction S) : StageModel S :=
  { m with program := { m.program with cuts := m.program.cuts ++ m.fittingCuts f } }

/-- If no new cut fits, none gets a row. -/
theorem stuck_of_forall (h : ∀ cut ∈ m.newCuts f, cut.dim ≠ m.program.dimStates) :
    m.stuck f = m := by
  have hnone : m.fittingCuts f = [] := by
    unfold fittingCuts
    cases hcuts : m.newCuts f with
    | nil => rfl
    | cons cut cuts =>
        apply List.takeWhile_cons_of_neg
        rw [decide_eq_true_eq]
        exact h cut (hcuts ▸ List.mem_cons_self)
  rw [stuck, hnone, List.append_nil]

/-- If the cuts of a value function have its dimension, one new cut that does not fit a model shows
that none does. -/
theorem forall_misfit {cut : Cut S}
    (hdim : ∀ cut ∈ f.cuts, f.dim.isCount cut.dim = true) (hcut : cut ∈ m.newCuts f)
    (hmisfit : cut.dim ≠ m.program.dimStates) :
    ∀ cut ∈ m.newCuts f, cut.dim ≠ m.program.dimStates := by
  intro cut' hcut'
  have hsame : cut'.dim = cut.dim := Value.eq_of_isCount
    (hdim cut' (List.mem_of_mem_drop hcut')) (hdim cut (List.mem_of_mem_drop hcut))
  rwa [hsame]

theorem sync_of_exists (h : ∃ cut ∈ m.newCuts f, cut.dim ≠ m.program.dimStates) :
    ∃ cut ∈ m.newCuts f, cut.dim ≠ m.program.dimStates ∧ m.sync f =
      (m.stuck f, [],
        some (.dimension "cut lambdas" (.int m.program.dimStates) (.int cut.dim))) := by
  obtain ⟨cut, hcut, hdim, hadd⟩ := addCuts_of_exists h
  have hsize : f.size ≠ m.synced := by
    intro hsize
    rw [newCuts, List.drop_eq_nil_of_le (Nat.le_of_eq hsize)] at hcut
    cases hcut
  refine ⟨cut, hcut, hdim, ?_⟩
  rw [newCuts] at hadd
  simp only [sync, hsize, if_false, hadd]
  rfl

end StageModel

namespace StageProgram

theorem cuts_of_aimed [Zero S] [One S] {p q : StageProgram S} {r : Request S}
    (h : p.aimed r = .ok q) : q.cuts = p.cuts := by
  obtain ⟨_, _, _, rfl, -⟩ := exists_aimed_eq h
  rfl

theorem cuts_leftBy [Zero S] [One S] [Neg S] (p : StageProgram S) (r : Request S) :
    (p.leftBy r).cuts = p.cuts := by
  unfold leftBy
  split
  · next q hq =>
      obtain ⟨_, _, hreleased, -⟩ := q.exists_released_eq r
      rw [hreleased]
      change q.cuts = p.cuts
      exact cuts_of_aimed hq
  · rfl

theorem IsFor.toCount_states [Scalar S] [Zero S] [Neg S] {setup : Setup S} {stage : Int}
    {p : StageProgram S} (h : p.IsFor setup stage) :
    setup.problem.states.toCount = .ok p.dimStates := by
  obtain ⟨_, _, parts, cuts, hretargets⟩ := h
  rw [dimStates, hretargets.dim, parts.states_eq]
  exact congrArg Except.ok (parts.dimStates_program cuts).symm

end StageProgram

variable [Scalar S] [Zero S] [One S] [Neg S] [Add S] [Sub S] [Mul S]
variable [LE S] [DecidableLE S] [LT S] [DecidableLT S]
variable {setup : Setup S} {s : Session S} {c : Call S} {r : Request S} {m : StageModel S}

namespace Session

/-- The cuts that have rows in the model that a call reaches, if it does so. -/
def rowsFor (s : Session S) (c : Call S) : List (Cut S) :=
  match (s.model? c.stage).filter (·.serves c.function) with
  | some m => m.program.cuts ++ m.newCuts c.function.function
  | none => c.function.function.cuts

/-- A call that reaches a model, with the program that it hands to the backend if its index is one.
All cuts of the value function count in the model that the session keeps. -/
structure Syncs (setup : Setup S) (s : Session S) (c : Call S) (q : Option (StageProgram S)) :
    Prop where
  reaches : s.reaches setup c = true
  indexed : q.isSome = true ↔
    ∃ r, readRequest setup c.stage c.state c.noise c.index = .ok r ∧ r.IsIndexed
  asked : (s.after setup c).asked = s.asked ++ q.toList
  cuts : ∀ p ∈ q, p.cuts = s.rowsFor c
  model : ∃ m, (∀ t, (s.after setup c).model? t = if t = c.stage then some m else s.model? t) ∧
    m.functionId = c.function.id ∧ m.synced = c.function.function.size ∧
    m.program.cuts = s.rowsFor c

/-- A call that ends at a cut that does not fit the model of its stage, which is left stuck there.
-/
structure Stops (setup : Setup S) (s : Session S) (c : Call S) (m : StageModel S) : Prop where
  reaches : s.reaches setup c = false
  misfit : ∃ cut ∈ m.newCuts c.function.function, cut.dim ≠ m.program.dimStates ∧
    (s.solve setup c.stage c.state c.noise c.function c.index).2 =
      .error (.dimension "cut lambdas" (.int m.program.dimStates) (.int cut.dim))
  asked : (s.after setup c).asked = s.asked
  model : ∀ t, (s.after setup c).model? t =
    if t = c.stage then some (m.stuck c.function.function) else s.model? t

omit [Scalar S] [Zero S] [One S] [Neg S] [Add S] [Sub S] [Mul S] [LE S] [DecidableLE S] [LT S]
  [DecidableLT S] in
theorem rowsFor_of_serves (hmodel : s.model? c.stage = some m)
    (hserves : m.serves c.function = true) :
    s.rowsFor c = m.program.cuts ++ m.newCuts c.function.function := by
  simp only [rowsFor, hmodel, Option.filter_some, hserves, if_true]

omit [Scalar S] [Zero S] [One S] [Neg S] [Add S] [Sub S] [Mul S] [LE S] [DecidableLE S] [LT S]
  [DecidableLT S] in
theorem rowsFor_of_not_serves
    (hmodel : ∀ m, s.model? c.stage = some m → m.serves c.function = false) :
    s.rowsFor c = c.function.function.cuts := by
  simp only [rowsFor, filter_serves_eq_none hmodel]

/-- A call that reaches a model of its stage gives rows to all cuts of its value function. -/
theorem Reaches.syncs {p : StageProgram S} (h : s.Reaches setup c r p)
    (hread : readRequest setup c.stage c.state c.noise c.index = .ok r)
    (hp : p.IsFor setup c.stage) (hcuts : p.cuts = s.rowsFor c) :
    s.Syncs setup c (p.aimed r).toOption := by
  have hr := fits_of_readRequest hread
  obtain ⟨m, hmodels, hid, hsynced, hprogram⟩ := h.model
  refine ⟨h.reaches, ?_, h.asked, ?_, m, hmodels, hid, hsynced, ?_⟩
  · constructor
    · intro hsome
      refine ⟨r, hread, ?_⟩
      by_contra hindexed
      rw [hp.aimed_of_not_isIndexed hr hindexed] at hsome
      cases hsome
    · rintro ⟨r', hread', hindexed⟩
      obtain rfl := Except.ok.inj (hread.symm.trans hread')
      obtain ⟨q, hq⟩ := hp.exists_aimed hr hindexed
      rw [hq]
      rfl
  · intro q hq
    cases haimed : p.aimed r with
    | error e =>
        rw [haimed] at hq
        cases hq
    | ok q' =>
        rw [haimed] at hq
        obtain rfl := Option.some.inj hq
        rw [StageProgram.cuts_of_aimed haimed, hcuts]
  · rw [hprogram, StageProgram.cuts_leftBy, hcuts]

theorem Syncs.handed_eq {q : Option (StageProgram S)} (h : s.Syncs setup c q) :
    s.handed setup c = q := by
  cases q with
  | none => exact handed_eq_none (h.asked.trans (List.append_nil _))
  | some q => exact handed_eq_some h.asked

/-- If all new cuts fit, a call that finds a model reaches it. -/
theorem IsSound.syncs_of_serves (h : s.IsSound setup)
    (hread : readRequest setup c.stage c.state c.noise c.index = .ok r)
    (hmodel : s.model? c.stage = some m) (hserves : m.serves c.function = true)
    (hfits : ∀ cut ∈ m.newCuts c.function.function, cut.dim = m.program.dimStates) :
    ∃ q, s.Syncs setup c q :=
  ⟨_, (reaches_of_serves hread hmodel hserves hfits).syncs hread
    ((h c.stage m hmodel).appendCuts _) (rowsFor_of_serves hmodel hserves).symm⟩

/-- A call that finds a model ends at a new cut that does not fit, with the model stuck there. -/
theorem solve_of_misfit (hread : readRequest setup c.stage c.state c.noise c.index = .ok r)
    (hmodel : s.model? c.stage = some m) (hserves : m.serves c.function = true)
    (hmisfit : ∃ cut ∈ m.newCuts c.function.function, cut.dim ≠ m.program.dimStates) :
    ∃ cut ∈ m.newCuts c.function.function, cut.dim ≠ m.program.dimStates ∧
      s.solve setup c.stage c.state c.noise c.function c.index =
        ((s.put c.stage (m.stuck c.function.function)).record [],
          .error (.dimension "cut lambdas" (.int m.program.dimStates) (.int cut.dim))) := by
  obtain ⟨cut, hcut, hdim, hsync⟩ := StageModel.sync_of_exists hmisfit
  refine ⟨cut, hcut, hdim, ?_⟩
  simp only [solve, hread, stageModel_of_serves hmodel hserves, solveModel, hsync]

/-- If a new cut does not fit, a call that finds a model stops there. -/
theorem stops_of_serves (hread : readRequest setup c.stage c.state c.noise c.index = .ok r)
    (hmodel : s.model? c.stage = some m) (hserves : m.serves c.function = true)
    (hmisfit : ∃ cut ∈ m.newCuts c.function.function, cut.dim ≠ m.program.dimStates) :
    s.Stops setup c m := by
  obtain ⟨cut, hcut, hdim, hsolve⟩ := solve_of_misfit hread hmodel hserves hmisfit
  have hafter := congrArg Prod.fst hsolve
  refine ⟨?_, ⟨cut, hcut, hdim, congrArg Prod.snd hsolve⟩, ?_, ?_⟩
  · obtain ⟨_, -, -, hsync⟩ := StageModel.sync_of_exists hmisfit
    simp only [reaches, hread, stageModel_of_serves hmodel hserves, hsync, Option.isNone_some]
  · rw [after, hafter]
    rfl
  · intro t
    rw [after, hafter]
    exact model?_put s c.stage t _

/-- Without a model that serves it, a call reaches one that was built for it, or cannot reach any
and leaves all models as they were. -/
theorem syncs_of_not_serves
    (hread : readRequest setup c.stage c.state c.noise c.index = .ok r)
    (hmodel : ∀ m, s.model? c.stage = some m → m.serves c.function = false) :
    (∃ q, s.Syncs setup c q) ∨ (¬ Reachable setup c ∧ s.reaches setup c = false ∧
      (s.after setup c).asked = s.asked ∧ (s.after setup c).models = s.models) := by
  rcases reachesWith_of_not_serves hread hmodel with
    ⟨-, _, parts, p, hp, hreaches⟩ | hrest
  · refine .inl ⟨_, hreaches.syncs hread ⟨_, _, parts, _, hp⟩ ?_⟩
    rw [rowsFor_of_not_serves hmodel, hp.same]
    rfl
  · exact .inr hrest

/-- Whatever a session has done, a call reaches a model if it can. -/
theorem IsSound.exists_syncs (h : s.IsSound setup) (hreachable : Reachable setup c) :
    ∃ q, s.Syncs setup c q := by
  obtain ⟨r, hread⟩ := hreachable.read
  rcases s.serves_or_not c.stage c.function with ⟨m, hm, hserves⟩ | hserves
  · obtain ⟨_, hbuild⟩ := hreachable.build
    obtain ⟨parts, hfits, -⟩ := StageProgram.build_eq_ok_iff.mp hbuild
    apply h.syncs_of_serves hread hm hserves
    intro cut hcut
    have hstates := parts.states_eq.symm.trans (h c.stage m hm).toCount_states
    rw [hfits cut (List.mem_of_mem_drop hcut), Except.ok.inj hstates]
  · rcases syncs_of_not_serves hread hserves with hsyncs | ⟨hnot, -⟩
    · exact hsyncs
    · exact absurd hreachable hnot

/-- A call that reaches a model hands over a program if its index is one. -/
theorem Syncs.exists_some {q : Option (StageProgram S)} (h : s.Syncs setup c q)
    (hread : readRequest setup c.stage c.state c.noise c.index = .ok r)
    (hindexed : r.IsIndexed) : ∃ p, s.Syncs setup c (some p) := by
  obtain ⟨p, rfl⟩ := Option.isSome_iff_exists.mp (h.indexed.mpr ⟨r, hread, hindexed⟩)
  exact ⟨p, h⟩

/-- Whatever a session has done, a call that can be served hands over a program. -/
theorem IsSound.exists_hands (h : s.IsSound setup) (hservable : Servable setup c) :
    ∃ p, s.Syncs setup c (some p) := by
  obtain ⟨q, hq⟩ := h.exists_syncs hservable.toReachable
  obtain ⟨r, hread⟩ := hservable.read
  exact hq.exists_some hread (hservable.indexed r hread)

/-- All ways in which a call can go: it reaches a model, it leaves the models as they were, or it
stops at a cut that does not fit. -/
theorem IsSound.cases_after (h : s.IsSound setup) (c : Call S) :
    (∃ q, s.Syncs setup c q) ∨
      (s.reaches setup c = false ∧ (s.after setup c).asked = s.asked ∧
        (s.after setup c).models = s.models) ∨
      ∃ r m, readRequest setup c.stage c.state c.noise c.index = .ok r ∧
        s.model? c.stage = some m ∧ m.serves c.function = true ∧ s.Stops setup c m := by
  cases hread : readRequest setup c.stage c.state c.noise c.index with
  | error e =>
      rw [after_of_rejected hread]
      exact .inr (.inl ⟨reaches_of_rejected hread, rfl, rfl⟩)
  | ok r =>
      rcases s.serves_or_not c.stage c.function with ⟨m, hm, hserves⟩ | hserves
      · by_cases hfits : ∀ cut ∈ m.newCuts c.function.function, cut.dim = m.program.dimStates
        · exact .inl (h.syncs_of_serves hread hm hserves hfits)
        · push Not at hfits
          exact .inr (.inr ⟨r, m, rfl, hm, hserves, stops_of_serves hread hm hserves hfits⟩)
      · rcases syncs_of_not_serves hread hserves with hsyncs | ⟨-, hrest⟩
        · exact .inl hsyncs
        · exact .inr (.inl hrest)

/-- A call hands a program to the backend exactly if it reaches a model and its index is one. -/
theorem IsSound.isSome_handed_iff (h : s.IsSound setup) (c : Call S) :
    (s.handed setup c).isSome = true ↔ s.reaches setup c = true ∧
      ∃ r, readRequest setup c.stage c.state c.noise c.index = .ok r ∧ r.IsIndexed := by
  rcases h.cases_after c with ⟨q, hsyncs⟩ | ⟨hreaches, hasked, -⟩ | ⟨_, _, -, -, -, hstops⟩
  · rw [hsyncs.handed_eq, hsyncs.indexed, hsyncs.reaches]
    exact (and_iff_right rfl).symm
  · simp [handed_eq_none hasked, hreaches]
  · simp [handed_eq_none hstops.asked, hstops.reaches]

/-- In a run in which no index is given as a floating number, the calls that reach a model are those
that come to the backend. -/
theorem reached_eq_served {calls : List (Call S)}
    (hindex : ∀ c ∈ calls, ∀ x, c.index ≠ .num (.real x)) :
    ({} : Session S).reached setup calls = ({} : Session S).served setup calls := by
  induction calls using List.reverseRecOn with
  | nil => rfl
  | append_singleton calls c ih =>
      have hlast : (({} : Session S).run setup calls).reaches setup c =
          ((({} : Session S).run setup calls).handed setup c).isSome := by
        rw [Bool.eq_iff_iff, (isSound_run setup calls).isSome_handed_iff]
        refine iff_self_and.mpr fun hreaches => ?_
        cases hread : readRequest setup c.stage c.state c.noise c.index with
        | error e =>
            rw [reaches_of_rejected hread] at hreaches
            cases hreaches
        | ok r =>
            refine ⟨r, rfl, ?_⟩
            by_contra hindexed
            obtain ⟨-, x, hx, -⟩ := exists_real_of_not_isIndexed hread hindexed
            exact hindex c (by simp) x hx
      rw [reached_concat, served_concat, hlast, ih fun d hd => hindex d (List.mem_append_left _ hd)]

end Session

/-- Whether a model has as many rows of cuts as there are cuts that count. -/
def StageModel.IsCounted (m : StageModel S) : Prop :=
  m.program.cuts.length = m.synced

/-- Whether a call leaves a model with rows for all new cuts, which then count, or is refused for a
cut and leaves the rows and the count as they were. -/
def StageModel.SyncsWhole (m m' : StageModel S) (f : ValueFunction S)
    (outcome : Except Fault (Outcome S)) : Prop :=
  (m'.program.cuts = m.program.cuts ++ m.newCuts f ∧ m'.synced = f.size) ∨
    ((∃ dim n, outcome = .error (.dimension "cut lambdas" dim n)) ∧
      m'.program.cuts = m.program.cuts ∧ m'.synced = m.synced)

namespace Session

/-- Whether every model of a session has as many rows of cuts as count. -/
def IsCounted (s : Session S) : Prop :=
  ∀ stage m, s.model? stage = some m → m.IsCounted

/-- Whether a call finds a model, and a new cut that fits it before one that does not. -/
def Splits (setup : Setup S) (s : Session S) (c : Call S) : Prop :=
  ∃ r m, readRequest setup c.stage c.state c.noise c.index = .ok r ∧
    s.model? c.stage = some m ∧ m.serves c.function = true ∧ m.Splits c.function.function

omit [Scalar S] [Zero S] [One S] [Neg S] [Add S] [Sub S] [Mul S] [LE S] [DecidableLE S] [LT S]
  [DecidableLT S] in
/-- If as many rows as count are found, as many are left. -/
theorem IsCounted.length_rowsFor (hcounted : s.IsCounted) (c : Call S) :
    (s.rowsFor c).length = c.function.function.size := by
  rcases s.serves_or_not c.stage c.function with ⟨m, hm, hserves⟩ | hserves
  · have hlength : m.program.cuts.length = m.synced := hcounted c.stage m hm
    rw [rowsFor_of_serves hm hserves, List.length_append, StageModel.newCuts, List.length_drop,
      hlength]
    simp only [StageModel.serves, Bool.and_eq_true, decide_eq_true_eq] at hserves
    exact Nat.add_sub_cancel' hserves.2
  · rw [rowsFor_of_not_serves hserves, ValueFunction.size]

/-- A call after which the models have as many rows as count, unless it splits the new cuts. -/
theorem IsSound.isCounted_after (h : s.IsSound setup) (hcounted : s.IsCounted)
    (hsplits : ¬ s.Splits setup c) : (s.after setup c).IsCounted := by
  intro t m' hm'
  rcases h.cases_after c with
    ⟨q, hsyncs⟩ | ⟨-, -, hmodels⟩ | ⟨r, m, hread, hmodel, hserves, hstops⟩
  · obtain ⟨m, hmodels, -, hsynced, hcuts⟩ := hsyncs.model
    rw [hmodels] at hm'
    split at hm'
    · obtain rfl := Option.some.inj hm'
      rw [StageModel.IsCounted, hcuts, hsynced]
      exact hcounted.length_rowsFor c
    · exact hcounted t m' hm'
  · rw [model?, hmodels] at hm'
    exact hcounted t m' hm'
  · rw [hstops.model] at hm'
    split at hm'
    · obtain rfl := Option.some.inj hm'
      obtain ⟨cut, hcut, hdim, -⟩ := hstops.misfit
      have hnone : m.fittingCuts c.function.function = [] := by
        by_contra hne
        exact hsplits ⟨r, m, hread, hmodel, hserves,
          (StageModel.splits_iff_of_exists ⟨cut, hcut, hdim⟩).mpr hne⟩
      rw [StageModel.IsCounted, StageModel.stuck, hnone, List.append_nil]
      exact hcounted c.stage m hmodel
    · exact hcounted t m' hm'

/-- A call that splits the new cuts leaves a model with more rows than count. -/
theorem Splits.not_isCounted_after (h : s.Splits setup c) (hcounted : s.IsCounted) :
    ¬ (s.after setup c).IsCounted := by
  obtain ⟨r, m, hread, hmodel, hserves, hsplits⟩ := h
  have hmisfit : ∃ cut ∈ m.newCuts c.function.function, cut.dim ≠ m.program.dimStates := by
    by_contra hfits
    push Not at hfits
    exact StageModel.not_splits_of_forall hfits hsplits
  intro hafter
  have hmodel' := (stops_of_serves hread hmodel hserves hmisfit).model c.stage
  rw [if_pos rfl] at hmodel'
  have hlength : m.program.cuts.length = m.synced := hcounted c.stage m hmodel
  have hstuck : (m.program.cuts ++ m.fittingCuts c.function.function).length = m.synced :=
    hafter c.stage _ hmodel'
  rw [List.length_append, hlength] at hstuck
  exact hsplits.1 (List.eq_nil_of_length_eq_zero (Nat.add_eq_left.mp hstuck))

omit [Scalar S] [Zero S] [One S] [Neg S] [Add S] [Sub S] [Mul S] [LE S] [DecidableLE S] [LT S]
  [DecidableLT S] in
theorem isCounted_new : ({} : Session S).IsCounted := by
  intro stage m hm
  cases hm

/-- In every state that a run comes through there are as many rows as count exactly if no call of
the run splits the new cuts. -/
theorem isCounted_run_iff (setup : Setup S) (calls : List (Call S)) :
    (∀ before, before <+: calls → (({} : Session S).run setup before).IsCounted) ↔
      ∀ before c, before ++ [c] <+: calls →
        ¬ (({} : Session S).run setup before).Splits setup c :=
  forall_run_iff isCounted_new (fun _ _ hsound hcounted =>
    ⟨fun hafter hsplits => hsplits.not_isCounted_after hcounted hafter,
      hsound.isCounted_after hcounted⟩) calls

/-- A call with the value function of an earlier one, which has kept the cuts that count in a model
and has rows for, and whose cuts all fit by now. -/
structure Mends (setup : Setup S) (m : StageModel S) (c d : Call S) : Prop where
  stage : d.stage = c.stage
  id : d.function.id = c.function.id
  read : ∃ r, readRequest setup d.stage d.state d.noise d.index = .ok r ∧ r.IsIndexed
  size : m.synced ≤ d.function.function.size
  kept : m.program.cuts = d.function.function.cuts.take m.synced
  fits : ∀ cut ∈ d.function.function.cuts,
    (Value.num setup.problem.states).isCount cut.dim = true

/-- What a call comes to after one that stopped at a cut that does not fit: the new cuts that fitted
have rows already, and get them again. -/
theorem Stops.exists_handed {d : Call S} (h : s.Stops setup c m)
    (hsound : (s.after setup c).IsSound setup) (hserves : m.serves c.function = true)
    (hmends : Mends setup m c d) :
    ∃ q, (s.after setup c).handed setup d = some q ∧
      q.cuts = m.program.cuts ++ m.fittingCuts c.function.function ++
        d.function.function.cuts.drop m.synced := by
  obtain ⟨r, hread, hindexed⟩ := hmends.read
  have hmodel : (s.after setup c).model? d.stage = some (m.stuck c.function.function) := by
    rw [h.model, if_pos hmends.stage]
  have hserves' : (m.stuck c.function.function).serves d.function = true := by
    simp only [StageModel.serves, Bool.and_eq_true, decide_eq_true_eq] at hserves ⊢
    exact ⟨hserves.1.trans hmends.id.symm, hmends.size⟩
  have hdims : ∀ cut ∈ (m.stuck c.function.function).newCuts d.function.function,
      cut.dim = (m.stuck c.function.function).program.dimStates := by
    intro cut hcut
    exact Number.eq_of_isCount (hsound d.stage _ hmodel).toCount_states
      (hmends.fits cut (List.mem_of_mem_drop hcut))
  obtain ⟨_, hsyncs⟩ := hsound.syncs_of_serves hread hmodel hserves' hdims
  obtain ⟨q, hq⟩ := hsyncs.exists_some hread hindexed
  refine ⟨q, hq.handed_eq, ?_⟩
  rw [hq.cuts q rfl, rowsFor_of_serves hmodel hserves']
  rfl

/-- A call that stopped leaves everything in order for the next one exactly if no new cut had fitted
before the misfit. -/
theorem Stops.exists_handed_iff {d : Call S} (h : s.Stops setup c m)
    (hsound : (s.after setup c).IsSound setup) (hserves : m.serves c.function = true)
    (hmends : Mends setup m c d) :
    ∃ q, (s.after setup c).handed setup d = some q ∧
      (q.cuts = d.function.function.cuts ↔ m.fittingCuts c.function.function = []) := by
  obtain ⟨q, hq, hcuts⟩ := h.exists_handed hsound hserves hmends
  refine ⟨q, hq, ?_⟩
  rw [hcuts, hmends.kept]
  constructor
  · intro heq
    have hlength := congrArg List.length heq
    have hsize := hmends.size
    rw [ValueFunction.size] at hsize
    simp only [List.length_append, List.length_take, List.length_drop] at hlength
    exact List.eq_nil_of_length_eq_zero (by omega)
  · intro hnone
    rw [hnone, List.append_nil, List.take_append_drop]

/-- What a call comes to that stopped at a cut: it is all or nothing exactly if no new cut had
fitted before the misfit. -/
theorem Stops.syncsWhole_iff_nil (h : s.Stops setup c m) :
    m.SyncsWhole (m.stuck c.function.function) c.function.function
        (s.solve setup c.stage c.state c.noise c.function c.index).2 ↔
      m.fittingCuts c.function.function = [] := by
  obtain ⟨cut, hcut, hdim, houtcome⟩ := h.misfit
  constructor
  · rintro (⟨hcuts, -⟩ | ⟨-, hcuts, -⟩)
    · have hall := List.append_cancel_left hcuts
      exact absurd (StageModel.fittingCuts_eq_newCuts_iff.mp hall cut hcut) hdim
    · exact List.append_right_eq_self.mp hcuts
  · intro hnone
    refine .inr ⟨⟨_, _, houtcome⟩, ?_, rfl⟩
    rw [StageModel.stuck, hnone, List.append_nil]

/-- When the sync of new cuts is all or nothing. Whatever a session has done, a call gives rows to
all new cuts, or is refused and changes none, exactly if it does not split them. If it is refused,
and its value function is mended, then the next call has the rows of its cuts and no others exactly
if the refused one did not split them. And there are as many rows as count in all states of a run
exactly if no call of the run splits the new cuts. -/
theorem syncsWhole_iff (calls : List (Call S))
    (hread : readRequest setup c.stage c.state c.noise c.index = .ok r)
    (hmodel : (({} : Session S).run setup calls).model? c.stage = some m)
    (hserves : m.serves c.function = true) :
    (∃ m', (({} : Session S).run setup (calls ++ [c])).model? c.stage = some m' ∧
      (m.SyncsWhole m' c.function.function ((({} : Session S).run setup calls).solve setup
        c.stage c.state c.noise c.function c.index).2 ↔ ¬ m.Splits c.function.function)) ∧
    ((∃ cut ∈ m.newCuts c.function.function, cut.dim ≠ m.program.dimStates) →
      ∀ d, Mends setup m c d →
        ∃ q, (({} : Session S).run setup (calls ++ [c])).handed setup d = some q ∧
          (q.cuts = d.function.function.cuts ↔ ¬ m.Splits c.function.function)) ∧
    ((∀ before, before <+: calls ++ [c] → (({} : Session S).run setup before).IsCounted) ↔
      ∀ before d, before ++ [d] <+: calls ++ [c] →
        ¬ (({} : Session S).run setup before).Splits setup d) := by
  have hsound := isSound_run setup calls
  rw [run_concat]
  refine ⟨?_, ?_, isCounted_run_iff setup (calls ++ [c])⟩
  · by_cases hfits : ∀ cut ∈ m.newCuts c.function.function, cut.dim = m.program.dimStates
    · obtain ⟨q, hsyncs⟩ := hsound.syncs_of_serves hread hmodel hserves hfits
      obtain ⟨m', hmodels, -, hsynced, hcuts⟩ := hsyncs.model
      refine ⟨m', by rw [hmodels, if_pos rfl], iff_of_true (.inl ⟨?_, hsynced⟩)
        (StageModel.not_splits_of_forall hfits)⟩
      rw [hcuts, rowsFor_of_serves hmodel hserves]
    · push Not at hfits
      have hstops := stops_of_serves hread hmodel hserves hfits
      refine ⟨_, by rw [hstops.model, if_pos rfl], ?_⟩
      rw [StageModel.splits_iff_of_exists hfits, not_not]
      exact hstops.syncsWhole_iff_nil
  · intro hmisfit d hmends
    rw [StageModel.splits_iff_of_exists hmisfit, not_not]
    exact (stops_of_serves hread hmodel hserves hmisfit).exists_handed_iff (hsound.solve c).1
      hserves hmends

end Session

namespace Stock

/-- The stock with the noise as a variable, and a backend that always fails. -/
def rebuilding : Setup ℚ :=
  ⟨problem .linear, params .rebuild, { reply _ _ := .failed .noLaws }⟩

/-- A call is refused for the first of three new cuts, and changes no row. When the two that do not
fit are taken away, the next call has rows for the cuts that are left, and no other row. -/
theorem syncsWhole_misfit :
    let first := call 2 3 [⟨[0], 1⟩] .null
    let misfit := call 2 3 [⟨[0], 1⟩, ⟨[1, 2], 0⟩, ⟨[1], 0⟩, ⟨[3, 4], 5⟩] .null
    let mended := call 2 3 [⟨[0], 1⟩, ⟨[1], 0⟩] .null
    (∃ m m', (({} : Session ℚ).run rebuilding [first]).model? 0 = some m ∧
      (({} : Session ℚ).run rebuilding [first, misfit]).model? 0 = some m' ∧
      m.SyncsWhole m' misfit.function.function ((({} : Session ℚ).run rebuilding [first]).solve
        rebuilding misfit.stage misfit.state misfit.noise misfit.function misfit.index).2) ∧
    ∃ q, (({} : Session ℚ).run rebuilding [first, misfit]).handed rebuilding mended = some q ∧
      q.cuts = [⟨[0], 1⟩, ⟨[1], 0⟩] := by
  intro first misfit mended
  obtain ⟨m, hmodel, hsynced, hcuts, hdim, hserves⟩ :
      ∃ m, (({} : Session ℚ).run rebuilding [first]).model? misfit.stage = some m ∧
        m.synced = 1 ∧ m.program.cuts = [⟨[0], 1⟩] ∧ m.program.dimStates = 1 ∧
        m.serves misfit.function = true :=
    ⟨_, rfl, rfl, rfl, rfl, rfl⟩
  have hnew : m.newCuts misfit.function.function = [⟨[1, 2], 0⟩, ⟨[1], 0⟩, ⟨[3, 4], 5⟩] := by
    rw [StageModel.newCuts, hsynced]
    rfl
  have hwhole : ¬ m.Splits misfit.function.function := by
    refine fun hsplits => hsplits.1 ?_
    rw [StageModel.fittingCuts, hnew, hdim]
    rfl
  have hmends : Session.Mends rebuilding m misfit mended :=
    ⟨rfl, rfl, ⟨⟨_, _, none⟩, rfl, nofun⟩, by rw [hsynced]; decide, by rw [hcuts, hsynced]; rfl,
      by decide⟩
  obtain ⟨⟨m', hmodel', hiff⟩, hmended, -⟩ :=
    Session.syncsWhole_iff [first] rfl hmodel hserves
  obtain ⟨q, hq, hrows⟩ :=
    hmended ⟨⟨[1, 2], 0⟩, by simp [hnew], by simp [hdim, Cut.dim]⟩ mended hmends
  exact ⟨⟨m, m', hmodel, hmodel', hiff.mpr hwhole⟩, q, hq, hrows.mpr hwhole⟩

/-- A call is refused for the second of two new cuts, but leaves a row for the first one, which does
not count. When the second one is taken away, the next call has two rows for the first. -/
theorem sync_repeats_row :
    let split := call 2 3 [⟨[1], 0⟩, ⟨[1, 2], 0⟩] .null
    let mended := call 2 3 [⟨[1], 0⟩] .null
    ((({} : Session ℚ).run rebuilding [call 2 3 [] .null]).solve rebuilding split.stage split.state
      split.noise split.function split.index).2 =
        .error (.dimension "cut lambdas" (.int 1) (.int 2)) ∧
    (∃ m, (({} : Session ℚ).run rebuilding [call 2 3 [] .null, split]).model? 0 = some m ∧
      m.program.cuts = [⟨[1], 0⟩] ∧ m.synced = 0) ∧
    ∃ q, (({} : Session ℚ).run rebuilding [call 2 3 [] .null, split]).handed rebuilding mended =
      some q ∧ q.cuts = [⟨[1], 0⟩, ⟨[1], 0⟩] :=
  ⟨rfl, ⟨_, rfl, rfl, rfl⟩, ⟨_, rfl, rfl⟩⟩

end Stock

end Bellman
