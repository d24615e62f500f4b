import Bellman.Proofs.Reading
import Bellman.Proofs.Session.StageModel
import Bellman.Session.Basic

/-!
# Runs of a session

A call asks a session to solve a stage with a value function as it is at that time. A run is what is
left after one call after another, whether they end with an outcome or with a fault. The lemmas
follow a call through the session: it is read, a model is found or built, the cuts are brought up to
date, and the model is put to the backend. A call that is given a number of another kind for an
index may come as far as its model, and only then be found out.
-/

namespace Bellman

open Data

variable {S : Type}

/-- A call to a session, with the value function as it is when the call is made. -/
structure Call (S : Type) where
  stage : Int
  state : Value
  noise : Value
  function : NamedFunction S
  index : Value

/-- Whether the index of a request, if it has one, is an index by its kind. -/
def Request.IsIndexed (r : Request S) : Prop :=
  ∀ k ∈ r.index, k.toInt? ≠ none

/-- Whether a request has the dimensions of a problem, and exactly in the mode with slots a number
in the range of their indices. -/
structure Request.Fits (problem : Problem S) (params : Parameters) (stage : Int) (r : Request S) :
    Prop where
  state : (Value.num problem.states).isCount r.state.length = true
  noise : (Value.num problem.noises).isCount r.noise.length = true
  rebuild : params.updateMode = .rebuild → r.index = none
  slotReuse : params.updateMode = .slotReuse →
    ∃ law k, problem.law stage = .ok law ∧ r.index = some k ∧ k.isInRange law.size = true

namespace StageProgram

variable [Scalar S] [Zero S] [Neg S] {problem : Problem S} {params : Parameters} {stage : Int}
variable {dim : Value} {model : CostModel} {r : Request S}

/-- A request that fits asks for a slot that a program of its stage has. -/
theorem Parts.exists_index (parts : Parts problem params stage dim model) (cuts : List (Cut S))
    (hr : r.Fits problem params stage) (hmode : params.updateMode = .slotReuse) :
    ∃ k, r.index = some k ∧
      k.isInRange ((parts.program cuts).setState r.state).slots.length = true := by
  obtain ⟨law, k, hlaw, hindex, hk⟩ := hr.slotReuse hmode
  obtain ⟨law', slots, hlaw', hslots, built⟩ := parts.exists_slots hmode
  obtain rfl := Except.ok.inj (hlaw.symm.trans hlaw')
  have hall : ((parts.program cuts).setState r.state).slots = slots := slots_of_slotted hslots
  refine ⟨k, hindex, ?_⟩
  rw [hall, ← built.length_eq]
  exact hk

/-- A request that fits can be put to every program of its stage that has just been built, if its
index is one. -/
theorem Parts.exists_aimed (parts : Parts problem params stage dim model) (cuts : List (Cut S))
    (hr : r.Fits problem params stage) (hindexed : r.IsIndexed) :
    ∃ q, (parts.program cuts).aimed r = .ok q := by
  cases hmode : params.updateMode with
  | rebuild =>
      simp only [aimed, hr.rebuild hmode]
      exact ⟨_, rfl⟩
  | slotReuse =>
      obtain ⟨k, hindex, hk⟩ := parts.exists_index cuts hr hmode
      obtain ⟨i, hi⟩ := Option.ne_none_iff_exists'.mp (hindexed k hindex)
      simp only [aimed, hindex]
      exact ⟨_, activate_eq_ok_iff.mpr ⟨hk, rfl, i, hi, rfl⟩⟩

/-- A request that fits but for the kind of its index is found out by the program. -/
theorem Parts.aimed_of_not_isIndexed (parts : Parts problem params stage dim model)
    (cuts : List (Cut S)) (hr : r.Fits problem params stage) (hindexed : ¬ r.IsIndexed) :
    (parts.program cuts).aimed r = .error (.notAnIndex "float") := by
  simp only [Request.IsIndexed, not_forall, not_not] at hindexed
  obtain ⟨k, hindex, hk⟩ := hindexed
  replace hindex : r.index = some k := hindex
  cases hmode : params.updateMode with
  | rebuild =>
      rw [hr.rebuild hmode] at hindex
      cases hindex
  | slotReuse =>
      obtain ⟨k', hindex', hrange⟩ := parts.exists_index cuts hr hmode
      obtain rfl := Option.some.inj (hindex.symm.trans hindex')
      simp only [aimed, hindex]
      rw [activate_of_toInt?_eq_none hrange rfl hk]
      obtain ⟨x, rfl⟩ := Number.toInt?_eq_none_iff.mp hk
      rfl

/-- A program of a stage is still one of that stage when a request that fits is over. -/
theorem Parts.retargets_leftBy (parts : Parts problem params stage dim model) {cuts : List (Cut S)}
    {p : StageProgram S} (hr : r.Fits problem params stage)
    (h : (parts.program cuts).Retargets p) : (parts.program cuts).Retargets (p.leftBy r) := by
  refine h.leftBy (parts.isAtRest_program cuts) ?_ ?_
  · intro hnone hmode
    obtain ⟨_, k, _, hk, _⟩ := hr.slotReuse (parts.mode_body.symm.trans hmode)
    rw [hnone] at hk
    cases hk
  · rw [parts.dimStates_program]
    exact Number.eq_of_isCount parts.states_eq hr.state

end StageProgram

namespace Session

section Requests

variable [Scalar S] [Zero S] [Sub S] [LE S] [DecidableLE S] [LT S] [DecidableLT S]
variable {setup : Setup S} {stage : Int}

theorem lt_size_of_indexOf {law : NoiseLaw S} {noise : List S} {tolerance : Value} {k : Nat}
    (h : law.indexOf noise tolerance = .ok k) : k < law.size := by
  have found : ∀ {limit : S} {i : Nat}, law.find? limit noise = some i → i < law.size := by
    intro limit i hfind
    exact (List.findIdx?_eq_some_iff_getElem.mp hfind).1
  unfold NoiseLaw.indexOf at h
  split at h
  · simp only [pure_bind] at h
    split at h
    · cases h
    · split at h
      · next hfind => exact pure_eq_ok.mp h ▸ found hfind
      · cases h
  · simp only [bind_eq_ok] at h
    obtain ⟨n, -, limit, -, h⟩ := h
    split at h
    · cases h
    · split at h
      · next hfind => exact pure_eq_ok.mp h ▸ found hfind
      · cases h

/-- The index of a noise is the one that is found, or the one that is given if it has its value. -/
theorem noiseIndex_eq_ok_iff {noise : List S} {index : Value} {k : Number} :
    noiseIndex setup stage noise index = .ok k ↔ ∃ law i, setup.problem.law stage = .ok law ∧
      law.indexOf noise (.num setup.params.noiseTolerance) = .ok i ∧
      (index = .null ∧ k = .whole i ∨
        index = .num k ∧ k.isInRange law.size = true ∧ k.sameValue (.whole i) = true) := by
  simp only [noiseIndex, bind_eq_ok]
  refine exists_congr fun law => ?_
  rw [exists_and_left]
  refine and_congr_right fun _ => ?_
  cases index with
  | null =>
      simp only [bind_eq_ok, pure_eq_ok, true_and, reduceCtorEq, false_and, or_false]
      exact exists_congr fun i => and_congr_right fun _ => eq_comm
  | num n =>
      dsimp only
      cases hrange : n.isInRange law.size with
      | false =>
          refine iff_of_false (fun h => by cases h) ?_
          rintro ⟨i, -, ⟨h, -⟩ | ⟨⟨⟩, h, -⟩⟩
          · cases h
          · exact Bool.false_ne_true (hrange.symm.trans h)
      | true =>
          simp only [Bool.not_true, Bool.false_eq_true, if_false, bind_eq_ok, reduceCtorEq,
            false_and, false_or]
          refine exists_congr fun i => and_congr_right fun _ => ?_
          cases hsame : n.sameValue (.whole i) with
          | false =>
              refine iff_of_false (fun h => by cases h) ?_
              rintro ⟨⟨⟩, -, h⟩
              exact Bool.false_ne_true (hsame.symm.trans h)
          | true =>
              simp only [Bool.not_true, Bool.false_eq_true, if_false, pure_eq_ok]
              constructor
              · rintro rfl
                exact ⟨rfl, hrange, hsame⟩
              · rintro ⟨⟨⟩, -⟩
                rfl
  | _ =>
      refine iff_of_false (fun h => by cases h) ?_
      rintro ⟨i, -, ⟨h, -⟩ | ⟨h, -⟩⟩ <;> cases h

theorem isInRange_of_noiseIndex {noise : List S} {index : Value} {k : Number}
    (h : noiseIndex setup stage noise index = .ok k) :
    ∃ law, setup.problem.law stage = .ok law ∧ k.isInRange law.size = true := by
  obtain ⟨law, i, hlaw, hfound, ⟨-, rfl⟩ | ⟨-, hrange, -⟩⟩ := noiseIndex_eq_ok_iff.mp h
  · have hlt := lt_size_of_indexOf hfound
    exact ⟨law, hlaw, (Number.isInRange_iff rfl).mpr ⟨Int.natCast_nonneg i, Int.ofNat_lt.mpr hlt⟩⟩
  · exact ⟨law, hlaw, hrange⟩

theorem state_of_readRequest {state noise index : Value} {r : Request S}
    (h : readRequest setup stage state noise index = .ok r) :
    Scalar.readVector "state" (.num setup.problem.states) state = .ok r.state := by
  simp only [readRequest, bind_eq_ok] at h
  obtain ⟨xs, hxs, ws, -, h⟩ := h
  cases hmode : setup.params.updateMode with
  | rebuild =>
      simp only [hmode, pure_eq_ok] at h
      exact h ▸ hxs
  | slotReuse =>
      simp only [hmode, bind_eq_ok, pure_eq_ok] at h
      obtain ⟨k, -, rfl⟩ := h
      exact hxs

theorem noise_of_readRequest {state noise index : Value} {r : Request S}
    (h : readRequest setup stage state noise index = .ok r) :
    Scalar.readVector "noise" (.num setup.problem.noises) noise = .ok r.noise := by
  simp only [readRequest, bind_eq_ok] at h
  obtain ⟨xs, -, ws, hws, h⟩ := h
  cases hmode : setup.params.updateMode with
  | rebuild =>
      simp only [hmode, pure_eq_ok] at h
      exact h ▸ hws
  | slotReuse =>
      simp only [hmode, bind_eq_ok, pure_eq_ok] at h
      obtain ⟨k, -, rfl⟩ := h
      exact hws

theorem fits_of_readRequest {state noise index : Value} {r : Request S}
    (h : readRequest setup stage state noise index = .ok r) :
    r.Fits setup.problem setup.params stage := by
  simp only [readRequest, bind_eq_ok] at h
  obtain ⟨xs, hxs, ws, hws, h⟩ := h
  cases hmode : setup.params.updateMode with
  | rebuild =>
      simp only [hmode, pure_eq_ok] at h
      subst h
      refine ⟨Scalar.isCount_of_readVector hxs, Scalar.isCount_of_readVector hws, fun _ => rfl, ?_⟩
      simp only [hmode, reduceCtorEq, false_implies]
  | slotReuse =>
      simp only [hmode, bind_eq_ok, pure_eq_ok] at h
      obtain ⟨k, hk, rfl⟩ := h
      obtain ⟨law, hlaw, hrange⟩ := isInRange_of_noiseIndex hk
      refine ⟨Scalar.isCount_of_readVector hxs, Scalar.isCount_of_readVector hws, ?_,
        fun _ => ⟨law, k, hlaw, rfl, hrange⟩⟩
      simp only [hmode, reduceCtorEq, false_implies]

/-- The index of a request is the one that was found, or the one that was given. -/
theorem index_of_readRequest {state noise index : Value} {r : Request S} {k : Number}
    (h : readRequest setup stage state noise index = .ok r) (hk : r.index = some k) :
    setup.params.updateMode = .slotReuse ∧ ((∃ i : Nat, k = .whole i) ∨ index = .num k) := by
  simp only [readRequest, bind_eq_ok] at h
  obtain ⟨xs, -, ws, -, h⟩ := h
  cases hmode : setup.params.updateMode with
  | rebuild =>
      simp only [hmode, pure_eq_ok] at h
      subst h
      cases hk
  | slotReuse =>
      simp only [hmode, bind_eq_ok, pure_eq_ok] at h
      obtain ⟨k', hk', rfl⟩ := h
      obtain rfl := Option.some.inj hk
      refine ⟨rfl, ?_⟩
      obtain ⟨_, i, -, -, ⟨-, hi⟩ | ⟨hindex, -⟩⟩ := noiseIndex_eq_ok_iff.mp hk'
      · exact .inl ⟨i, hi⟩
      · exact .inr hindex

/-- Only an index that is given as a floating number leads to a request without one. -/
theorem exists_real_of_not_isIndexed {state noise index : Value} {r : Request S}
    (h : readRequest setup stage state noise index = .ok r) (hindexed : ¬ r.IsIndexed) :
    setup.params.updateMode = .slotReuse ∧
      ∃ x, index = .num (.real x) ∧ r.index = some (.real x) := by
  simp only [Request.IsIndexed, not_forall, not_not] at hindexed
  obtain ⟨k, hk, hnone⟩ := hindexed
  obtain ⟨x, rfl⟩ := Number.toInt?_eq_none_iff.mp hnone
  obtain ⟨hmode, ⟨i, hi⟩ | hindex⟩ := index_of_readRequest h hk
  · cases hi
  · exact ⟨hmode, x, hindex, hk⟩

end Requests

section Models

variable [Scalar S] [Zero S] [Neg S]
variable {setup : Setup S} {s : Session S} {stage : Int} {f : NamedFunction S}

/-- A session that has counted a program that was built, and a backend that was to be set up. -/
def counted (setup : Setup S) (s : Session S) (stage : Int) (model : CostModel)
    (f : NamedFunction S) : Session S :=
  { s.record [.built stage setup.params.updateMode model f.function.size] with
    builds := s.builds + 1
    backends := s.backends + 1 }

omit [Scalar S] [Zero S] [Neg S] in
theorem serves_or_not (s : Session S) (stage : Int) (f : NamedFunction S) :
    (∃ m, s.model? stage = some m ∧ m.serves f = true) ∨
      ∀ m, s.model? stage = some m → m.serves f = false := by
  by_cases h : ∃ m, s.model? stage = some m ∧ m.serves f = true
  · exact .inl h
  · exact .inr fun m hm => Bool.eq_false_iff.mpr fun hserves => h ⟨m, hm, hserves⟩

omit [Scalar S] [Zero S] [Neg S] in
theorem filter_serves_eq_none (h : ∀ m, s.model? stage = some m → m.serves f = false) :
    (s.model? stage).filter (·.serves f) = none := by
  rw [Option.filter_eq_none_iff]
  intro m hm
  rw [h m hm]
  exact Bool.false_ne_true

theorem stageModel_of_serves {m : StageModel S} (hmodel : s.model? stage = some m)
    (hserves : m.serves f = true) : s.stageModel setup stage f = (s, .ok m) := by
  simp only [stageModel, hmodel, Option.filter_some, hserves, if_true]

/-- Without a model that serves a value function, one is built, unless the stage cannot be built or
the backend cannot be set up. -/
theorem stageModel_of_not_serves (setup : Setup S)
    (hmodel : ∀ m, s.model? stage = some m → m.serves f = false) :
    (∃ e, StageProgram.build setup.problem setup.params stage f.function = .error e ∧
      s.stageModel setup stage f = (s, .error e)) ∨
    ∃ model base,
      StageProgram.build setup.problem setup.params stage f.function = .ok (model, base) ∧
      ((∃ e, setup.backend.refusal = some e ∧
        s.stageModel setup stage f = (s.counted setup stage model f, .error e)) ∨
      setup.backend.refusal = none ∧ s.stageModel setup stage f =
        ((s.counted setup stage model f).put stage (.fresh base f), .ok (.fresh base f))) := by
  have hfilter := filter_serves_eq_none hmodel
  cases hbuild : StageProgram.build setup.problem setup.params stage f.function with
  | error e =>
      refine .inl ⟨e, rfl, ?_⟩
      simp only [stageModel, hfilter, hbuild]
  | ok built =>
      obtain ⟨model, base⟩ := built
      refine .inr ⟨model, base, rfl, ?_⟩
      cases hrefusal : setup.backend.refusal with
      | some e =>
          refine .inl ⟨e, rfl, ?_⟩
          simp only [stageModel, hfilter, hbuild, hrefusal]
          rfl
      | none =>
          refine .inr ⟨rfl, ?_⟩
          simp only [stageModel, hfilter, hbuild, hrefusal]
          rfl

end Models

/-- Putting a model to the backend: what the backend is asked, and what the session keeps. -/
theorem fst_ask [Scalar S] [Zero S] [One S] [Neg S] [Add S] [Mul S] [LE S] [DecidableLE S]
    (setup : Setup S) (s : Session S) (stage : Int) (m : StageModel S) (r : Request S) :
    ∃ notes, (s.ask setup stage m r).1 =
      (({ s with asked := s.asked ++ [m.program] } : Session S).put stage
        (m.answered setup.params.solver.display r
          (setup.backend.reply s.asked m.program))).record notes :=
  ⟨_, rfl⟩

variable [Scalar S] [Zero S] [One S] [Neg S] [Add S] [Sub S] [Mul S]
variable [LE S] [DecidableLE S] [LT S] [DecidableLT S]

/-- A session after a call, whatever came of it. -/
def after (setup : Setup S) (s : Session S) (c : Call S) : Session S :=
  (s.solve setup c.stage c.state c.noise c.function c.index).1

/-- A session after one call after another. -/
def run (setup : Setup S) (s : Session S) (calls : List (Call S)) : Session S :=
  calls.foldl (after setup) s

/-- The program that a call hands to the backend, if it comes to that. -/
def handed (setup : Setup S) (s : Session S) (c : Call S) : Option (StageProgram S) :=
  (s.after setup c).asked[s.asked.length]?

/-- The calls of a run that come to the backend. -/
def served (setup : Setup S) (s : Session S) : List (Call S) → List (Call S)
  | [] => []
  | c :: calls =>
    let rest := served setup (s.after setup c) calls
    if (s.handed setup c).isSome then c :: rest else rest

/-- Whether a call comes as far as a model that has rows for all cuts of its value function. From
there it comes to the backend, unless it was given a number of another kind for an index. -/
def reaches (setup : Setup S) (s : Session S) (c : Call S) : Bool :=
  match readRequest setup c.stage c.state c.noise c.index with
  | .error _ => false
  | .ok _ =>
    match s.stageModel setup c.stage c.function with
    | (_, .error _) => false
    | (_, .ok m) => (m.sync c.function.function).2.2.isNone

/-- The calls of a run that reach a model. If no index is given as a floating number, these are the
calls that come to the backend, as `reached_eq_served` says. -/
def reached (setup : Setup S) (s : Session S) : List (Call S) → List (Call S)
  | [] => []
  | c :: calls =>
    let rest := reached setup (s.after setup c) calls
    if s.reaches setup c then c :: rest else rest

variable {setup : Setup S} {s s' : Session S} {c : Call S} {r : Request S}

/-- A call that reaches a model with a program: what it asks the backend, and what the session
keeps. -/
structure Reaches (setup : Setup S) (s : Session S) (c : Call S) (r : Request S)
    (p : StageProgram S) : Prop where
  reaches : s.reaches setup c = true
  asked : (s.after setup c).asked = s.asked ++ (p.aimed r).toOption.toList
  model : ∃ m, (∀ t, (s.after setup c).model? t = if t = c.stage then some m else s.model? t) ∧
    m.functionId = c.function.id ∧ m.synced = c.function.function.size ∧ m.program = p.leftBy r

/-- A call that is read, finds a model, and can be aimed puts the model to the backend. -/
theorem solve_of_found {m : StageModel S} {q : StageProgram S}
    (hread : readRequest setup c.stage c.state c.noise c.index = .ok r)
    (hmodel : s.stageModel setup c.stage c.function = (s', .ok m))
    (hcuts : ∀ cut ∈ c.function.function.cuts.drop m.synced, cut.dim = m.program.dimStates)
    (haimed : (m.upToDate c.function.function).program.aimed r = .ok q) :
    ∃ notes, s.solve setup c.stage c.state c.noise c.function c.index =
      ask setup (s'.record notes) c.stage
        { m.upToDate c.function.function with program := q } r := by
  obtain ⟨synced, hsync⟩ := StageModel.sync_of_forall hcuts
  obtain ⟨aimed, haim⟩ := StageModel.aim_of_aimed haimed
  refine ⟨synced ++ aimed, ?_⟩
  simp only [solve, hread, hmodel, solveModel, hsync, haim]

/-- A call that is read and finds a model, but cannot be aimed, leaves the model with its state set.
-/
theorem solve_of_error {m : StageModel S} {e : Fault}
    (hread : readRequest setup c.stage c.state c.noise c.index = .ok r)
    (hmodel : s.stageModel setup c.stage c.function = (s', .ok m))
    (hcuts : ∀ cut ∈ c.function.function.cuts.drop m.synced, cut.dim = m.program.dimStates)
    (haimed : (m.upToDate c.function.function).program.aimed r = .error e) :
    ∃ notes, s.solve setup c.stage c.state c.noise c.function c.index =
      ((s'.put c.stage { m.upToDate c.function.function with
        program := (m.upToDate c.function.function).program.setState r.state }).record notes,
        .error e) := by
  obtain ⟨synced, hsync⟩ := StageModel.sync_of_forall hcuts
  refine ⟨synced ++ [], ?_⟩
  simp only [solve, hread, hmodel, solveModel, hsync, StageModel.aim_of_error haimed]

/-- A call that is read and finds a model leaves it up to date, and comes to the backend if it can
be aimed. -/
theorem after_of_found {m : StageModel S}
    (hread : readRequest setup c.stage c.state c.noise c.index = .ok r)
    (hmodel : s.stageModel setup c.stage c.function = (s', .ok m))
    (hcuts : ∀ cut ∈ c.function.function.cuts.drop m.synced, cut.dim = m.program.dimStates) :
    (s.after setup c).asked = s'.asked ++
        ((m.upToDate c.function.function).program.aimed r).toOption.toList ∧
      ∃ m', (∀ t, (s.after setup c).model? t = if t = c.stage then some m' else s'.model? t) ∧
        m'.functionId = m.functionId ∧ m'.synced = c.function.function.size ∧
        m'.program = (m.upToDate c.function.function).program.leftBy r := by
  cases haimed : (m.upToDate c.function.function).program.aimed r with
  | ok q =>
      obtain ⟨before, hsolve⟩ := solve_of_found hread hmodel hcuts haimed
      obtain ⟨notes, hask⟩ := fst_ask setup (s'.record before) c.stage
        { m.upToDate c.function.function with program := q } r
      rw [after, hsolve, hask]
      refine ⟨rfl, _, fun t => model?_put _ c.stage t _, ?_⟩
      simp only [StageModel.functionId_answered, StageModel.synced_answered,
        StageModel.program_answered, StageProgram.leftBy, haimed]
      exact ⟨rfl, rfl, trivial⟩
  | error e =>
      obtain ⟨notes, hsolve⟩ := solve_of_error hread hmodel hcuts haimed
      rw [after, hsolve]
      refine ⟨(List.append_nil _).symm, _, fun t => model?_put _ c.stage t _, rfl, rfl, ?_⟩
      simp only [StageProgram.leftBy, haimed]

theorem reaches_of_found {m : StageModel S}
    (hread : readRequest setup c.stage c.state c.noise c.index = .ok r)
    (hmodel : s.stageModel setup c.stage c.function = (s', .ok m))
    (hcuts : ∀ cut ∈ c.function.function.cuts.drop m.synced, cut.dim = m.program.dimStates)
    (hid : m.functionId = c.function.id) (hasked : s'.asked = s.asked)
    (hmodels : ∀ t, t ≠ c.stage → s'.model? t = s.model? t) :
    s.Reaches setup c r (m.upToDate c.function.function).program := by
  obtain ⟨hasked', m', hmodels', hid', hsynced, hprogram⟩ := after_of_found hread hmodel hcuts
  refine ⟨?_, by rw [hasked', hasked], m', fun t => ?_, hid'.trans hid, hsynced, hprogram⟩
  · obtain ⟨synced, hsync⟩ := StageModel.sync_of_forall hcuts
    simp only [reaches, hread, hmodel, hsync, Option.isNone_none]
  · rw [hmodels']
    split
    · rfl
    · next ht => exact hmodels t ht

/-- A call reaches the model that serves its value function, if all new cuts fit it. -/
theorem reaches_of_serves {m : StageModel S}
    (hread : readRequest setup c.stage c.state c.noise c.index = .ok r)
    (hmodel : s.model? c.stage = some m) (hserves : m.serves c.function = true)
    (hcuts : ∀ cut ∈ c.function.function.cuts.drop m.synced, cut.dim = m.program.dimStates) :
    s.Reaches setup c r (m.upToDate c.function.function).program := by
  have hid : m.functionId = c.function.id := by
    simp only [StageModel.serves, Bool.and_eq_true, decide_eq_true_eq] at hserves
    exact hserves.1
  exact reaches_of_found hread (stageModel_of_serves hmodel hserves) hcuts hid rfl fun _ _ => rfl

/-- A call reaches the model that is built for it, which has all the cuts of its value function. -/
theorem reaches_of_built {model : CostModel} {base : StageProgram S}
    (hread : readRequest setup c.stage c.state c.noise c.index = .ok r)
    (hmodel : s.stageModel setup c.stage c.function =
      ((s.counted setup c.stage model c.function).put c.stage (.fresh base c.function),
        .ok (.fresh base c.function))) :
    s.Reaches setup c r base := by
  have hdrop : c.function.function.cuts.drop c.function.function.size = [] :=
    List.drop_eq_nil_of_le (Nat.le_refl _)
  have hprogram : ((StageModel.fresh base c.function).upToDate c.function.function).program =
      base := by
    simp only [StageModel.upToDate, StageModel.fresh, hdrop, List.append_nil]
  rw [← hprogram]
  refine reaches_of_found hread hmodel ?_ rfl rfl fun t ht => ?_
  · simp only [StageModel.fresh, hdrop, List.not_mem_nil, false_implies, implies_true]
  · rw [model?_put, if_neg ht]
    rfl

theorem Reaches.handed_eq {p : StageProgram S} (h : s.Reaches setup c r p) :
    s.handed setup c = (p.aimed r).toOption := by
  rw [handed, h.asked]
  cases (p.aimed r).toOption with
  | none => exact List.getElem?_eq_none (by simp)
  | some q => exact List.getElem?_concat_length

omit [One S] [Add S] [Mul S] in
theorem reaches_of_rejected {e : Fault}
    (hread : readRequest setup c.stage c.state c.noise c.index = .error e) :
    s.reaches setup c = false := by
  simp only [reaches, hread]

omit [One S] [Add S] [Mul S] in
theorem reaches_of_unserved {e : Fault}
    (hread : readRequest setup c.stage c.state c.noise c.index = .ok r)
    (hmodel : s.stageModel setup c.stage c.function = (s', .error e)) :
    s.reaches setup c = false := by
  simp only [reaches, hread, hmodel]

theorem after_of_rejected {e : Fault}
    (hread : readRequest setup c.stage c.state c.noise c.index = .error e) :
    s.after setup c = s := by
  simp only [after, solve, hread]

theorem after_of_unserved {e : Fault}
    (hread : readRequest setup c.stage c.state c.noise c.index = .ok r)
    (hmodel : s.stageModel setup c.stage c.function = (s', .error e)) :
    s.after setup c = s' := by
  simp only [after, solve, hread, hmodel]

theorem handed_eq_some {q : StageProgram S} (h : (s.after setup c).asked = s.asked ++ [q]) :
    s.handed setup c = some q := by
  rw [handed, h, List.getElem?_concat_length]

theorem handed_eq_none (h : (s.after setup c).asked = s.asked) : s.handed setup c = none := by
  rw [handed, h, List.getElem?_eq_none (Nat.le_refl _)]

theorem run_concat (setup : Setup S) (s : Session S) (calls : List (Call S)) (c : Call S) :
    s.run setup (calls ++ [c]) = (s.run setup calls).after setup c := by
  simp only [run, List.foldl_append, List.foldl_cons, List.foldl_nil]

theorem served_concat (setup : Setup S) (s : Session S) (calls : List (Call S)) (c : Call S) :
    s.served setup (calls ++ [c]) =
      s.served setup calls ++ if ((s.run setup calls).handed setup c).isSome then [c] else [] := by
  induction calls generalizing s with
  | nil => rfl
  | cons d calls ih =>
      simp only [List.cons_append, served, ih, run, List.foldl_cons]
      split <;> rfl

theorem reached_concat (setup : Setup S) (s : Session S) (calls : List (Call S)) (c : Call S) :
    s.reached setup (calls ++ [c]) =
      s.reached setup calls ++ if (s.run setup calls).reaches setup c then [c] else [] := by
  induction calls generalizing s with
  | nil => rfl
  | cons d calls ih =>
      simp only [List.cons_append, reached, ih, run, List.foldl_cons]
      split <;> rfl

theorem reached_sublist (setup : Setup S) (s : Session S) (calls : List (Call S)) :
    (s.reached setup calls).Sublist calls := by
  induction calls generalizing s with
  | nil => exact .slnil
  | cons c calls ih =>
      simp only [reached]
      split
      · exact (ih _).cons_cons c
      · exact (ih _).cons c

end Session

end Bellman
