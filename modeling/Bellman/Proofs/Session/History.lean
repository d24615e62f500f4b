import Bellman.Proofs.Exact
import Bellman.Proofs.Session.Run
import Mathlib.Data.List.Chain

/-!
# What a session hands to the backend does not depend on its past

The model of a stage is built once and then retargeted and extended from call to call. As long as
the cuts of a value function are only added to between two calls that reach a model, or there are
fewer of them in the end, nothing of an earlier call shows: the program that a call hands to the
backend is the one that a new session would hand to it. A call that reaches a model comes to the
backend, unless it was given a number of another kind for an index.

The invariant is that the model of a stage stands for the last call of that stage that reached it.
It was built for that call, and only its targets have changed since.
-/

namespace Bellman

open Data

variable {S : Type}

/-- Whether the cuts of the later of two calls are those of the earlier one and more, or fewer. -/
def Call.Precedes (c d : Call S) : Prop :=
  c.function.function.cuts <+: d.function.function.cuts ∨
    d.function.function.size < c.function.function.size

variable [Scalar S] [Zero S] [One S] [Neg S] [Add S] [Sub S] [Mul S]
variable [LE S] [DecidableLE S] [LT S] [DecidableLT S]

/-- A model that stands for a value function as it is at some time: the model was built for it, and
has only been retargeted since. -/
structure StageModel.StandsFor (setup : Setup S) (stage : Int) (f : NamedFunction S)
    (m : StageModel S) : Prop where
  functionId : m.functionId = f.id
  synced : m.synced = f.function.size
  program : ∃ model, ∃ parts : StageProgram.Parts setup.problem setup.params stage f.function.dim
    model, (parts.program f.function.cuts).Retargets m.program

namespace Session

/-- The calls of a stage. -/
def ofStage (stage : Int) (calls : List (Call S)) : List (Call S) :=
  calls.filter fun c => c.stage = stage

/-- Whether every model stands for the last of some calls that is of its stage. -/
structure Tracks (setup : Setup S) (calls : List (Call S)) (s : Session S) : Prop where
  model : ∀ stage m, s.model? stage = some m → setup.backend.refusal = none ∧
    ∃ c, (ofStage stage calls).getLast? = some c ∧ m.StandsFor setup stage c.function

/-- What is asked of the value functions of a run: their cuts fit the problem, each keeps its
dimension, and from one call of a stage that reaches a model to the next one with the same value
function, cuts are only added to or there are fewer in the end. -/
structure Orderly (setup : Setup S) (calls : List (Call S)) : Prop where
  fits : ∀ c ∈ calls, ∀ cut ∈ c.function.function.cuts,
    (Value.num setup.problem.states).isCount cut.dim = true
  dim : ∀ c ∈ calls, ∀ d ∈ calls, c.function.id = d.function.id →
    c.function.function.dim = d.function.function.dim
  cuts : ∀ stage id,
    ((ofStage stage (reached setup {} calls)).filter fun c => c.function.id = id).IsChain
      Call.Precedes

variable {setup : Setup S} {s : Session S} {c : Call S} {r : Request S}

/-- Whether a call reaches a model whose program was built and has the rows of some cuts. -/
def ReachesWith (setup : Setup S) (s : Session S) (c : Call S) (r : Request S)
    (cuts : List (Cut S)) : Prop :=
  ∃ model, ∃ parts : StageProgram.Parts setup.problem setup.params c.stage
    c.function.function.dim model, ∃ p, (parts.program cuts).Retargets p ∧ s.Reaches setup c r p

/-- A model that stands for an earlier state of the value function of a call serves it, with the
cuts that were added since. -/
theorem reachesWith_of_serves {m : StageModel S} {f : NamedFunction S}
    (hread : readRequest setup c.stage c.state c.noise c.index = .ok r)
    (hmodel : s.model? c.stage = some m) (hserves : m.serves c.function = true)
    (hstands : m.StandsFor setup c.stage f) (hdim : f.function.dim = c.function.function.dim)
    (hfits : ∀ cut ∈ c.function.function.cuts,
      (Value.num setup.problem.states).isCount cut.dim = true) :
    s.ReachesWith setup c r
      (f.function.cuts ++ c.function.function.cuts.drop f.function.size) := by
  obtain ⟨-, hsynced, hprogram⟩ := hstands
  rw [hdim] at hprogram
  obtain ⟨model, parts, hretargets⟩ := hprogram
  have hdrop : ∀ cut ∈ c.function.function.cuts.drop m.synced,
      cut.dim = m.program.dimStates := by
    intro cut hcut
    have hcount := hfits cut (List.mem_of_mem_drop hcut)
    rw [Number.eq_of_isCount parts.states_eq hcount, StageProgram.dimStates, hretargets.dim]
    exact (parts.dimStates_program _).symm
  refine ⟨model, parts, _, ?_, reaches_of_serves hread hmodel hserves hdrop⟩
  rw [StageModel.upToDate, hsynced]
  exact hretargets.appendCuts _

/-- Whether a call can reach a model, which does not depend on what a session has done before: it
can be read, its stage can be built, and the backend can be set up. -/
structure Reachable (setup : Setup S) (c : Call S) : Prop where
  read : ∃ r, readRequest setup c.stage c.state c.noise c.index = .ok r
  build : ∃ built, StageProgram.build setup.problem setup.params c.stage c.function.function =
    .ok built
  backend : setup.backend.refusal = none

/-- Whether a call can be served: it can reach a model, and its index is one. -/
structure Servable (setup : Setup S) (c : Call S) : Prop extends Reachable setup c where
  indexed : ∀ r, readRequest setup c.stage c.state c.noise c.index = .ok r → r.IsIndexed

/-- Without a model that serves it, a call that can do so reaches a model built for it, and any
other leaves the models and what the backend was asked as they were. -/
theorem reachesWith_of_not_serves
    (hread : readRequest setup c.stage c.state c.noise c.index = .ok r)
    (hmodel : ∀ m, s.model? c.stage = some m → m.serves c.function = false) :
    (Reachable setup c ∧ s.ReachesWith setup c r c.function.function.cuts) ∨
    (¬ Reachable setup c ∧ s.reaches setup c = false ∧ (s.after setup c).asked = s.asked ∧
      (s.after setup c).models = s.models) := by
  rcases stageModel_of_not_serves setup hmodel with
    ⟨e, hbuild, hstage⟩ | ⟨model, base, hbuild, ⟨e, hrefusal, hstage⟩ | ⟨hrefusal, hstage⟩⟩
  · refine .inr ⟨?_, reaches_of_unserved hread hstage, ?_⟩
    · rintro ⟨-, ⟨built, hbuilt⟩, -⟩
      rw [hbuild] at hbuilt
      cases hbuilt
    · rw [after_of_unserved hread hstage]
      exact ⟨rfl, rfl⟩
  · refine .inr ⟨?_, reaches_of_unserved hread hstage, ?_⟩
    · rintro ⟨-, -, hnone⟩
      rw [hrefusal] at hnone
      cases hnone
    · rw [after_of_unserved hread hstage]
      exact ⟨rfl, rfl⟩
  · obtain ⟨parts, -, rfl⟩ := StageProgram.build_eq_ok_iff.mp hbuild
    exact .inl ⟨⟨⟨r, hread⟩, ⟨_, hbuild⟩, hrefusal⟩, model, parts, _, .refl _,
      reaches_of_built hread hstage⟩

omit [One S] [Add S] [Sub S] [Mul S] [LE S] [DecidableLE S] [LT S] [DecidableLT S] in
theorem build_of_fits {model : CostModel} {stage : Int} {v : ValueFunction S}
    (parts : StageProgram.Parts setup.problem setup.params stage v.dim model)
    (hfits : ∀ cut ∈ v.cuts, (Value.num setup.problem.states).isCount cut.dim = true) :
    StageProgram.build setup.problem setup.params stage v = .ok (model, parts.program v.cuts) :=
  StageProgram.build_eq_ok_iff.mpr
    ⟨parts, fun cut hcut => Number.eq_of_isCount parts.states_eq (hfits cut hcut), rfl⟩

/-- Calls that reach models with the same cuts hand over the same program. -/
theorem ReachesWith.handed_eq {s' : Session S}
    (h : s.ReachesWith setup c r c.function.function.cuts)
    (h' : s'.ReachesWith setup c r c.function.function.cuts)
    (hfits : ∀ cut ∈ c.function.function.cuts,
      (Value.num setup.problem.states).isCount cut.dim = true) :
    s.handed setup c = s'.handed setup c := by
  obtain ⟨model, parts, p, hp, hreaches⟩ := h
  obtain ⟨model', parts', p', hp', hreaches'⟩ := h'
  have same := (build_of_fits parts hfits).symm.trans (build_of_fits parts' hfits)
  simp only [Except.ok.injEq, Prod.mk.injEq] at same
  rw [hreaches.handed_eq, hreaches'.handed_eq, hp.aimed_eq, hp'.aimed_eq, same.2]

/-- A session that tracks some calls brings a call to a model exactly if it can reach one, and then
with the rows of the cuts of its value function, in order and no others. -/
theorem Tracks.reaches {calls : List (Call S)} (h : s.Tracks setup calls)
    (hfits : ∀ cut ∈ c.function.function.cuts,
      (Value.num setup.problem.states).isCount cut.dim = true)
    (hdim : ∀ d ∈ calls, d.function.id = c.function.id →
      d.function.function.dim = c.function.function.dim)
    (hcuts : s.reaches setup c = true → ∀ d, (ofStage c.stage calls).getLast? = some d →
      d.function.id = c.function.id → d.Precedes c) :
    (Reachable setup c ∧ ∃ r, readRequest setup c.stage c.state c.noise c.index = .ok r ∧
      s.ReachesWith setup c r c.function.function.cuts) ∨
    (¬ Reachable setup c ∧ s.reaches setup c = false ∧ (s.after setup c).asked = s.asked ∧
      (s.after setup c).models = s.models) := by
  cases hread : readRequest setup c.stage c.state c.noise c.index with
  | error e =>
      refine .inr ⟨?_, reaches_of_rejected hread, ?_⟩
      · rintro ⟨⟨r, hr⟩, -, -⟩
        rw [hread] at hr
        cases hr
      · rw [after_of_rejected hread]
        exact ⟨rfl, rfl⟩
  | ok r =>
      rcases s.serves_or_not c.stage c.function with ⟨m, hm, hserves⟩ | hserves
      · obtain ⟨hrefusal, d, hd, hstands⟩ := h.model c.stage m hm
        have hd' : d ∈ calls := List.mem_of_mem_filter (List.mem_of_getLast? hd)
        have hserves' := hserves
        simp only [StageModel.serves, Bool.and_eq_true, decide_eq_true_eq] at hserves'
        have hid : d.function.id = c.function.id := hstands.functionId.symm.trans hserves'.1
        have hreaches := reachesWith_of_serves hread hm hserves hstands (hdim d hd' hid) hfits
        have hcome : s.reaches setup c = true := by
          obtain ⟨_, _, _, -, hreaches⟩ := hreaches
          exact hreaches.reaches
        have hextends : d.function.function.cuts <+: c.function.function.cuts := by
          rcases hcuts hcome d hd hid with hextends | hfewer
          · exact hextends
          · have := hserves'.2
            rw [hstands.synced] at this
            omega
        obtain ⟨added, hadded⟩ := hextends
        have hall : d.function.function.cuts ++
            c.function.function.cuts.drop d.function.function.size = c.function.function.cuts := by
          rw [← hadded, ValueFunction.size, List.drop_left]
        rw [hall] at hreaches
        obtain ⟨model, parts, -⟩ := id hreaches
        exact .inl ⟨⟨⟨r, hread⟩, ⟨_, build_of_fits parts hfits⟩, hrefusal⟩, r, rfl, hreaches⟩
      · rcases reachesWith_of_not_serves hread hserves with ⟨hreachable, hreaches⟩ | hrest
        · exact .inl ⟨hreachable, r, rfl, hreaches⟩
        · exact .inr hrest

/-- A session still tracks the calls that reached a model when there is one more of them, or one
more call that did not reach one. -/
theorem Tracks.after {calls : List (Call S)} (h : s.Tracks setup calls)
    (hfits : ∀ cut ∈ c.function.function.cuts,
      (Value.num setup.problem.states).isCount cut.dim = true)
    (hdim : ∀ d ∈ calls, d.function.id = c.function.id →
      d.function.function.dim = c.function.function.dim)
    (hcuts : s.reaches setup c = true → ∀ d, (ofStage c.stage calls).getLast? = some d →
      d.function.id = c.function.id → d.Precedes c) :
    (s.after setup c).Tracks setup (calls ++ if s.reaches setup c then [c] else []) := by
  rcases h.reaches hfits hdim hcuts with
    ⟨hreachable, r, hread, model, parts, p, hp, hreaches⟩ | ⟨-, hreaches, -, hmodels⟩
  · rw [hreaches.reaches]
    obtain ⟨m', hmodels, hid, hsynced, hprogram⟩ := hreaches.model
    have hretargets := hprogram ▸ parts.retargets_leftBy (fits_of_readRequest hread) hp
    refine ⟨fun stage m hm => ⟨hreachable.backend, ?_⟩⟩
    rw [hmodels] at hm
    by_cases hstage : stage = c.stage
    · subst hstage
      rw [if_pos rfl] at hm
      obtain rfl := Option.some.inj hm
      refine ⟨c, ?_, hid, hsynced, model, parts, hretargets⟩
      simp [ofStage]
    · rw [if_neg hstage] at hm
      obtain ⟨-, d, hd, hstands⟩ := h.model stage m hm
      refine ⟨d, ?_, hstands⟩
      simpa [ofStage, Ne.symm hstage] using hd
  · rw [hreaches]
    refine ⟨fun stage m hm => ?_⟩
    rw [model?, hmodels] at hm
    simpa using h.model stage m hm

omit [One S] [Add S] [Sub S] [Mul S] [LE S] [DecidableLE S] [LT S] [DecidableLT S] in
theorem tracks_new (setup : Setup S) : ({} : Session S).Tracks setup [] :=
  ⟨fun stage m hm => by simp [model?] at hm⟩

theorem Orderly.of_concat {calls : List (Call S)} (h : Orderly setup (calls ++ [c])) :
    Orderly setup calls := by
  refine ⟨fun d hd => h.fits d (List.mem_append_left _ hd),
    fun d hd e he => h.dim d (List.mem_append_left _ hd) e (List.mem_append_left _ he), ?_⟩
  intro stage id
  have hchain := h.cuts stage id
  rw [reached_concat, ofStage, List.filter_append, List.filter_append] at hchain
  exact hchain.left_of_append

/-- In an orderly run, the last call of a stage that reached a model precedes the next one of the
same value function. -/
theorem Orderly.precedes {calls : List (Call S)} (h : Orderly setup (calls ++ [c]))
    (hreaches : (({} : Session S).run setup calls).reaches setup c = true) {d : Call S}
    (hd : (ofStage c.stage (reached setup {} calls)).getLast? = some d)
    (hid : d.function.id = c.function.id) : d.Precedes c := by
  have hchain := h.cuts c.stage c.function.id
  obtain ⟨earlier, hearlier⟩ := List.getLast?_eq_some_iff.mp hd
  rw [reached_concat, if_pos hreaches, ofStage, List.filter_append, ← ofStage, hearlier] at hchain
  simp only [List.filter_append, List.filter_cons, List.filter_nil, hid, decide_true, if_true]
    at hchain
  exact (List.isChain_append.mp hchain).2.2 d (by simp) c (by simp)

/-- After an orderly run, every model stands for the last call of its stage that reached it. -/
theorem tracks_run {calls : List (Call S)} (h : Orderly setup calls) :
    (({} : Session S).run setup calls).Tracks setup (reached setup {} calls) := by
  induction calls using List.reverseRecOn with
  | nil => exact tracks_new setup
  | append_singleton calls c ih =>
      rw [run_concat, reached_concat]
      refine (ih h.of_concat).after (h.fits c (by simp)) ?_ fun hreaches d => h.precedes hreaches
      intro d hd
      have hmem := (reached_sublist setup {} calls).subset hd
      exact h.dim d (List.mem_append_left _ hmem) c (by simp)

/-- Calls are orderly if the cuts of no value function are ever taken away. -/
theorem Orderly.of_growing {calls : List (Call S)}
    (hfits : ∀ c ∈ calls, ∀ cut ∈ c.function.function.cuts,
      (Value.num setup.problem.states).isCount cut.dim = true)
    (hdim : ∀ c ∈ calls, ∀ d ∈ calls, c.function.id = d.function.id →
      c.function.function.dim = d.function.function.dim)
    (hcuts : calls.Pairwise fun c d => c.function.id = d.function.id →
      c.function.function.cuts <+: d.function.function.cuts) : Orderly setup calls := by
  refine ⟨hfits, hdim, fun stage id => ?_⟩
  refine List.Pairwise.isChain ?_
  rw [List.pairwise_filter, ofStage]
  refine ((hcuts.sublist (reached_sublist setup {} calls)).sublist List.filter_sublist).imp ?_
  intro c d hextends hc hd
  simp only [decide_eq_true_eq] at hc hd
  exact .inl (hextends (hc.trans hd.symm))

/-- After an orderly run, a call hands the backend the program that it would hand it in a session
that has done nothing yet, and none if it would not hand it one there. -/
theorem handed_run {calls : List (Call S)} (h : Orderly setup (calls ++ [c])) :
    (({} : Session S).run setup calls).handed setup c = ({} : Session S).handed setup c := by
  have hfits := h.fits c (by simp)
  have hpast := (tracks_run h.of_concat).reaches hfits
    (fun d hd =>
      h.dim d (List.mem_append_left _ ((reached_sublist setup {} calls).subset hd)) c (by simp))
    fun hreaches d => h.precedes hreaches
  have hnew := (tracks_new setup).reaches (c := c) hfits
    (by simp only [List.not_mem_nil, false_implies, implies_true])
    (by simp only [ofStage, List.filter_nil, List.getLast?_nil, reduceCtorEq, false_implies,
      implies_true])
  rcases hpast with ⟨hreachable, r, hread, hreaches⟩ | ⟨hreachable, -, hasked, -⟩
  · rcases hnew with ⟨-, r', hread', hreaches'⟩ | ⟨hreachable', -⟩
    · obtain rfl := Except.ok.inj (hread.symm.trans hread')
      exact hreaches.handed_eq hreaches' hfits
    · exact absurd hreachable hreachable'
  · rcases hnew with ⟨hreachable', -⟩ | ⟨-, -, hasked', -⟩
    · exact absurd hreachable' hreachable
    · rw [handed_eq_none hasked, handed_eq_none hasked']

end Session

/-- A call to solve the first stage of the stock. -/
def Stock.call (stock demand : Int) (cuts : List (Cut ℚ)) (index : Value) : Call ℚ :=
  ⟨0, .list [.int stock], .list [.int demand], ⟨0, .int 1, cuts⟩, index⟩

/-- A run in which the slot of one demand is live, then a call has the wrong index, then there is a
new cut and the slot of the other demand is asked for. -/
theorem Stock.handed_run_slotReuse :
    let setup : Setup ℚ := ⟨problem .linear, params .slotReuse, { reply _ _ := .failed .noLaws }⟩
    let calls := [call 2 3 [⟨[-1], 5⟩] .null, call 2 1 [⟨[-1], 5⟩] (.int 1)]
    let next := call 4 1 [⟨[-1], 5⟩, ⟨[-2], 6⟩] .null
    Session.Orderly setup (calls ++ [next]) ∧
      ((({} : Session ℚ).run setup calls).handed setup next).isSome ∧
      (({} : Session ℚ).run setup calls).handed setup next =
        ({} : Session ℚ).handed setup next := by
  intro setup calls next
  have horderly : Session.Orderly setup (calls ++ [next]) := by
    refine Session.Orderly.of_growing ?_ ?_ ?_
    · decide +kernel
    · simp [calls, next, call]
    · simp [calls, next, call]
  exact ⟨horderly, by decide +kernel, Session.handed_run horderly⟩

end Bellman
