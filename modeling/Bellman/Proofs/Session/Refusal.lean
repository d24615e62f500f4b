import Bellman.Proofs.Session.Course

/-!
# Requests that are refused

A request can be refused for what it says itself, for what the problem gives for its stage, or
because the stage cannot be built against its value function. All of this is found out before
anything of the session changes: as long as the cuts of the value function have its dimension, a
call comes to the backend once, or leaves the session exactly as it was, and the model that its
stage had goes on to serve the calls that it served.

The one exception is a floating number that is given for an index and has the value of the right
one. It passes for that index until the slot is to be switched on, and by then the model has been
built and extended, and holds the state of the request.
-/

namespace Bellman

open Data

variable {S : Type} [Scalar S]

/-- The faults that are raised by what a session works with when it solves a stage: a plain value
that is no scalar, or a function of the problem. -/
inductive Setup.Raises (setup : Setup S) (stage : Int) : Fault → Prop
  | scalar (v : Value) (e : Fault) (h : (Scalar.read v : Except Fault S) = .error e) :
      Raises setup stage e
  | dynamics (view : NoiseView S) (e : Fault)
      (h : setup.problem.dynamics stage view = .error e) : Raises setup stage e
  | equalities (view : NoiseView S) (e : Fault)
      (h : setup.problem.equalities stage view = .error e) : Raises setup stage e
  | inequalities (view : NoiseView S) (e : Fault)
      (h : setup.problem.inequalities stage view = .error e) : Raises setup stage e
  | cost (model : CostModel) (pieces : List (StageCost S))
      (hpieces : setup.problem.costPieces = .ok (model, pieces)) (piece : StageCost S)
      (hpiece : piece ∈ pieces) (view : NoiseView S) (e : Fault)
      (h : piece stage view = .error e) : Raises setup stage e

/-- The faults with which a request for a stage can be refused. -/
inductive Setup.Rejects (setup : Setup S) (stage : Int) : Fault → Prop
  | raised (e : Fault) (h : setup.Raises stage e) : Rejects setup stage e
  -- vectors of the request
  | notIterable (typeName : String) : Rejects setup stage (.notIterable typeName)
  | dimension (what : String) (expected got : Value) :
      Rejects setup stage (.dimension what expected got)
  -- the noise
  | noLaws : Rejects setup stage .noLaws
  | noLaw (declared : Nat) : Rejects setup stage (.noLaw stage declared)
  | unmatchedNoise (noise support : Value) : Rejects setup stage (.unmatchedNoise noise support)
  | noiseIndexOutOfRange (index : Number) (values : Nat) :
      Rejects setup stage (.noiseIndexOutOfRange index stage values)
  | noiseIndexMismatch (noise : Value) (index : Number) :
      Rejects setup stage (.noiseIndexMismatch noise index stage)
  | unorderedIndex (typeName : String) : Rejects setup stage (.unordered "<=" "int" typeName)
  | tooLong : Rejects setup stage .tooLong
  | negativeMatchTolerance : Rejects setup stage .negativeMatchTolerance
  -- the build
  | unsupportedCost (model : Value) : Rejects setup stage (.unsupportedCost model)
  | notACount (typeName : String) : Rejects setup stage (.notACount typeName)
  | trivialConstraint : Rejects setup stage .trivialConstraint
  | varyingRowCount : Rejects setup stage (.varyingRowCount stage)

variable {setup : Setup S} {stage : Int} {e : Fault}

theorem Data.Value.exists_of_items_eq_error {v : Value} (h : v.items = .error e) :
    ∃ typeName, e = .notIterable typeName := by
  cases v with
  | null | num _ | date _ | moment _ | listAgain | mapAgain =>
      exact ⟨_, (Except.error.inj h).symm⟩
  | _ => cases h

theorem Data.Number.exists_of_toCount_eq_error {n : Number} (h : n.toCount = .error e) :
    ∃ typeName, e = .notACount typeName := by
  unfold Number.toCount at h
  split at h
  · cases h
  · exact ⟨_, (Except.error.inj h).symm⟩

namespace Setup

/-- A vector is refused for a coordinate that is no scalar, or for the number of coordinates. -/
theorem rejects_of_readVector {what : String} {dim v : Value}
    (h : (Scalar.readVector what dim v : Except Fault (List S)) = .error e) :
    setup.Rejects stage e := by
  simp only [Scalar.readVector, bind_eq_error] at h
  rcases h with hitems | ⟨items, -, hread | ⟨xs, -, hcount⟩⟩
  · obtain ⟨typeName, rfl⟩ := Value.exists_of_items_eq_error hitems
    exact .notIterable typeName
  · obtain ⟨item, -, he⟩ := exists_of_mapM_eq_error hread
    exact .raised e (.scalar item e he)
  · split at hcount
    · cases hcount
    · obtain rfl := Except.error.inj hcount
      exact .dimension _ _ _

theorem rejects_of_law (h : setup.problem.law stage = .error e) : setup.Rejects stage e := by
  unfold Problem.law at h
  split at h
  · obtain rfl := Except.error.inj h
    exact .noLaws
  · split at h
    · cases h
    · obtain rfl := Except.error.inj h
      exact .noLaw _

theorem rejects_of_toCount {n : Number} (h : n.toCount = .error e) : setup.Rejects stage e := by
  obtain ⟨typeName, rfl⟩ := Number.exists_of_toCount_eq_error h
  exact .notACount typeName

theorem rejects_of_costPieces (h : setup.problem.costPieces = .error e) :
    setup.Rejects stage e := by
  simp only [Problem.costPieces, bind_eq_error, pure_ne_error, and_false, exists_false,
    or_false] at h
  rcases h with hmodel | ⟨model, -, hpieces⟩
  · unfold CostModel.parse at hmodel
    split at hmodel
    · split at hmodel
      · cases hmodel
      · obtain rfl := Except.error.inj hmodel
        exact .unsupportedCost _
    · obtain rfl := Except.error.inj hmodel
      exact .unsupportedCost _
  · unfold DeclaredCost.pieces at hpieces
    split at hpieces
    case h_7 v =>
      simp only [bind_eq_error] at hpieces
      rcases hpieces with hitems | ⟨_, -, hpieces⟩
      · obtain ⟨typeName, rfl⟩ := Value.exists_of_items_eq_error hitems
        exact .notIterable typeName
      · obtain rfl := Except.error.inj hpieces
        exact .unsupportedCost _
    all_goals
      cases hpieces
      try exact .unsupportedCost _

section Bodies

variable {noises : Nat} {model : CostModel} {pieces : List (StageCost S)} {view : NoiseView S}

theorem rejects_of_costs (hpieces : setup.problem.costPieces = .ok (model, pieces))
    (h : pieces.mapM (fun piece => piece stage view) = .error e) : setup.Rejects stage e := by
  obtain ⟨piece, hpiece, he⟩ := exists_of_mapM_eq_error h
  exact .raised e (.cost model pieces hpieces piece hpiece view e he)

omit [Scalar S] in
theorem eq_of_constraintRows_eq_error {rows : List (Expr S)}
    (h : Body.constraintRows rows = .error e) : e = .trivialConstraint := by
  unfold Body.constraintRows at h
  split at h
  · exact (Except.error.inj h).symm
  · cases h

theorem rejects_of_buildDirect (hpieces : setup.problem.costPieces = .ok (model, pieces))
    (h : Body.buildDirect setup.problem stage noises model pieces = .error e) :
    setup.Rejects stage e := by
  simp only [Body.buildDirect, bind_eq_error] at h
  rcases h with hdynamics | ⟨dynamics, -, h⟩
  · exact .raised e (.dynamics _ e hdynamics)
  · by_cases hcount : (Value.num setup.problem.states).isCount dynamics.length
    · simp only [hcount, Bool.not_true, Bool.false_eq_true, if_false, bind_eq_error] at h
      rcases h with hequalities | ⟨_, -, h⟩
      · exact .raised e (.equalities _ e hequalities)
      rcases h with hmention | ⟨_, -, h⟩
      · obtain rfl := eq_of_constraintRows_eq_error hmention
        exact .trivialConstraint
      rcases h with hinequalities | ⟨_, -, h⟩
      · exact .raised e (.inequalities _ e hinequalities)
      rcases h with hmention | ⟨_, -, h⟩
      · obtain rfl := eq_of_constraintRows_eq_error hmention
        exact .trivialConstraint
      rcases h with hcosts | ⟨_, -, h⟩
      · exact rejects_of_costs hpieces hcosts
      · exact absurd h pure_ne_error
    · simp only [hcount] at h
      obtain rfl := Except.error.inj h
      exact .dimension _ _ _

theorem rejects_of_buildSlotted [Neg S] {infinity : S}
    (hpieces : setup.problem.costPieces = .ok (model, pieces))
    (h : Body.buildSlotted setup.problem stage infinity pieces = .error e) :
    setup.Rejects stage e := by
  simp only [Body.buildSlotted, bind_eq_error] at h
  rcases h with hlaw | ⟨law, -, h⟩
  · exact rejects_of_law hlaw
  rcases h with hdynamics | ⟨_, -, h⟩
  · obtain ⟨view, -, he⟩ := exists_of_mapM_eq_error hdynamics
    exact .raised e (.dynamics _ e he)
  rcases h with hequalities | ⟨_, -, h⟩
  · obtain ⟨view, -, he⟩ := exists_of_mapM_eq_error hequalities
    exact .raised e (.equalities _ e he)
  rcases h with hinequalities | ⟨_, -, h⟩
  · obtain ⟨view, -, he⟩ := exists_of_mapM_eq_error hinequalities
    exact .raised e (.inequalities _ e he)
  rcases h with hcosts | ⟨_, -, h⟩
  · obtain ⟨view, -, he⟩ := exists_of_mapM_eq_error hcosts
    exact rejects_of_costs hpieces he
  split at h
  · obtain rfl := Except.error.inj h
    exact .dimension _ _ _
  · split at h
    · obtain rfl := Except.error.inj h
      exact .varyingRowCount
    · exact absurd h pure_ne_error

end Bodies

theorem rejects_of_addCuts {p : StageProgram S} {cuts : List (Cut S)}
    (h : cuts.foldlM StageProgram.addCut p = .error e) : setup.Rejects stage e := by
  induction cuts generalizing p with
  | nil => exact absurd h pure_ne_error
  | cons cut cuts ih =>
      simp only [List.foldlM_cons, bind_eq_error] at h
      rcases h with hcut | ⟨p', -, hrest⟩
      · unfold StageProgram.addCut at hcut
        split at hcut
        · cases hcut
        · obtain rfl := Except.error.inj hcut
          exact .dimension _ _ _
      · exact ih hrest

/-- A stage that cannot be built is refused for something that the build looks at. -/
theorem rejects_of_build [Zero S] [Neg S] {v : ValueFunction S}
    (h : StageProgram.build setup.problem setup.params stage v = .error e) :
    setup.Rejects stage e := by
  have steps := h
  simp only [StageProgram.build, bind_eq_error] at steps
  rcases steps with hpieces | ⟨⟨model, pieces⟩, hpieces, steps⟩
  · exact rejects_of_costPieces hpieces
  rcases steps with hinfinity | ⟨infinity, hinfinity, steps⟩
  · exact .raised e (.scalar _ e hinfinity)
  by_cases hdim : v.dim.sameKey (.num setup.problem.states)
  · simp only [hdim, Bool.not_true, Bool.false_eq_true, if_false, bind_eq_error] at steps
    rcases steps with hstates | ⟨states, hstates, steps⟩
    · exact rejects_of_toCount hstates
    rcases steps with hcontrols | ⟨controls, hcontrols, steps⟩
    · exact rejects_of_toCount hcontrols
    rcases steps with hnoises | ⟨noises, hnoises, steps⟩
    · exact rejects_of_toCount hnoises
    rcases steps with hlower | ⟨lower, hlower, -⟩
    · exact .raised e (.scalar _ e hlower)
    -- The parts are known, and the body and the cuts are left.
    rw [StageProgram.build_eq_of_parts hpieces hinfinity hdim hstates hcontrols hnoises hlower] at h
    simp only [bind_eq_error, pure_ne_error, and_false, exists_false, or_false] at h
    rcases h with hbody | ⟨body, -, hcuts⟩
    · unfold Body.buildFor at hbody
      split at hbody
      · exact rejects_of_buildDirect hpieces hbody
      · exact rejects_of_buildSlotted hpieces hbody
    · exact rejects_of_addCuts hcuts
  · simp only [hdim] at steps
    obtain rfl := Except.error.inj steps
    exact .dimension _ _ _

section Noise

variable [Zero S] [Sub S] [LE S] [DecidableLE S] [LT S] [DecidableLT S]

theorem rejects_of_indexOf {law : NoiseLaw S} {noise : List S} {tolerance : Number}
    (h : law.indexOf noise (.num tolerance) = .error e) : setup.Rejects stage e := by
  unfold NoiseLaw.indexOf at h
  split at h
  case' isTrue => simp only [pure_bind] at h
  case' isFalse =>
    simp only [Value.toReal, ok_bind, bind_eq_error] at h
    rcases h with hlimit | ⟨limit, -, h⟩
    · exact .raised e (.scalar _ e hlimit)
  -- Either way the limit is known, and the value is searched for.
  all_goals
    split at h
    · obtain rfl := Except.error.inj h
      exact .negativeMatchTolerance
    · split at h
      · exact absurd h pure_ne_error
      · obtain rfl := Except.error.inj h
        exact .unmatchedNoise _ _

theorem rejects_of_noiseIndex {noise : List S} {index : Value}
    (h : Session.noiseIndex setup stage noise index = .error e) : setup.Rejects stage e := by
  simp only [Session.noiseIndex, bind_eq_error] at h
  rcases h with hlaw | ⟨law, -, h⟩
  · exact rejects_of_law hlaw
  cases index with
  | null =>
      simp only [bind_eq_error, pure_ne_error, and_false, exists_false, or_false] at h
      exact rejects_of_indexOf h
  | num k =>
      dsimp only at h
      split at h
      · obtain rfl := Except.error.inj h
        unfold Number.shownIn
        split
        · exact .noiseIndexOutOfRange _ _
        · exact .tooLong
      · simp only [bind_eq_error] at h
        rcases h with hfound | ⟨found, -, h⟩
        · exact rejects_of_indexOf hfound
        · split at h
          · obtain rfl := Except.error.inj h
            exact .noiseIndexMismatch _ _
          · exact absurd h pure_ne_error
  | _ =>
      obtain rfl := Except.error.inj h
      exact .unorderedIndex _

/-- A request that cannot be read is refused for one of its vectors or for its noise. -/
theorem rejects_of_readRequest {state noise index : Value}
    (h : Session.readRequest setup stage state noise index = .error e) :
    setup.Rejects stage e := by
  simp only [Session.readRequest, bind_eq_error] at h
  rcases h with hstate | ⟨_, -, h⟩
  · exact rejects_of_readVector hstate
  rcases h with hnoise | ⟨_, -, h⟩
  · exact rejects_of_readVector hnoise
  split at h
  · exact absurd h pure_ne_error
  · simp only [bind_eq_error, pure_ne_error, and_false, exists_false, or_false] at h
    exact rejects_of_noiseIndex h

end Noise

end Setup

variable [Zero S] [One S] [Neg S] [Add S] [Sub S] [Mul S]
variable [LE S] [DecidableLE S] [LT S] [DecidableLT S]
variable {s : Session S} {c : Call S} {m : StageModel S}

namespace Session

/-- Whether the model of a stage still serves the calls that it is there for: one with its value
function, whose new cuts fit and whose index is one, puts it to the backend with rows for these
cuts, and no other model is built. -/
def StillServes (setup : Setup S) (s : Session S) (stage : Int) (m : StageModel S) : Prop :=
  ∀ d r, d.stage = stage → m.serves d.function = true →
    readRequest setup d.stage d.state d.noise d.index = .ok r → r.IsIndexed →
    (∀ cut ∈ m.newCuts d.function.function, cut.dim = m.program.dimStates) →
    ∃ m', s.Puts setup d r m' ∧
      m'.program.cuts = m.program.cuts ++ m.newCuts d.function.function ∧
      (s.after setup d).builds = s.builds

theorem IsSound.stillServes (h : s.IsSound setup) (hmodel : s.model? stage = some m) :
    s.StillServes setup stage m := by
  intro d r hstage hserves hread hindexed hfits
  subst hstage
  obtain ⟨m', hputs⟩ := h.puts_of_serves hread hindexed hmodel hserves hfits
  obtain ⟨_, hsyncs⟩ := h.syncs_of_serves hread hmodel hserves hfits
  obtain rfl := hsyncs.handed_eq.symm.trans (handed_eq_some hputs.asked)
  refine ⟨m', hputs, ?_, ?_⟩
  · rw [hsyncs.cuts m'.program rfl, rowsFor_of_serves hmodel hserves]
  · cases hputs.past with
    | found m₀ model serves answers stored builds => exact builds
    | built unserved answers stored builds =>
        have hnot := unserved m hmodel
        rw [hserves] at hnot
        cases hnot

/-- If the backend can be set up and the cuts of the value function have its dimension, a call comes
to the backend once, is refused and leaves the session as it was, or is found out at its model. -/
theorem IsSound.asks_or_unchanged (h : s.IsSound setup) (hrefusal : setup.backend.refusal = none)
    (hdim : ∀ cut ∈ c.function.function.cuts, c.function.function.dim.isCount cut.dim = true) :
    (∃ q, (s.after setup c).asked = s.asked ++ [q]) ∨
      (∃ e, s.result setup c = (s, .error e) ∧ setup.Rejects c.stage e) ∨
      ∃ r m, s.Mislays setup c r m := by
  cases h.course c with
  | unread e hread hresult =>
      exact .inr (.inl ⟨e, hresult, Setup.rejects_of_readRequest hread⟩)
  | unbuilt e hbuild hresult => exact .inr (.inl ⟨e, hresult, Setup.rejects_of_build hbuild⟩)
  | refused e model hsome hresult =>
      rw [hrefusal] at hsome
      cases hsome
  | stopped m hmodel hserves cut hcut hmisfit hresult =>
      have hall := StageModel.forall_misfit hdim hcut hmisfit
      rw [StageModel.stuck_of_forall hall, put_of_model? hmodel] at hresult
      exact .inr (.inl ⟨_, hresult, .dimension _ _ _⟩)
  | mislaid r m hmislays => exact .inr (.inr ⟨r, m, hmislays⟩)
  | put r m hputs => exact .inl ⟨m.program, hputs.asked⟩

/-- A call that is found out at its model was given a floating number for an index, which has the
value of the index that is found for its noise. -/
theorem Mislays.exists_real {r : Request S} (h : s.Mislays setup c r m) :
    setup.params.updateMode = .slotReuse ∧ ∃ x law i, c.index = .num (.real x) ∧
      setup.problem.law c.stage = .ok law ∧
      law.indexOf r.noise (.num setup.params.noiseTolerance) = .ok i ∧
      (Number.real x).sameValue (.whole i) = true := by
  obtain ⟨hmode, x, hindex, hr⟩ := exists_real_of_not_isIndexed h.read h.indexed
  refine ⟨hmode, x, ?_⟩
  have hread := h.read
  simp only [readRequest, hmode, bind_eq_ok, pure_eq_ok] at hread
  obtain ⟨xs, -, ws, -, k, hk, rfl⟩ := hread
  obtain rfl := Option.some.inj hr
  obtain ⟨law, i, hlaw, hfound, ⟨-, hwhole⟩ | ⟨-, -, hsame⟩⟩ := noiseIndex_eq_ok_iff.mp hk
  · cases hwhole
  · exact ⟨law, i, hindex, hlaw, hfound, hsame⟩

/-- After any run, a call whose value function has cuts of its own dimension comes to the backend
once, or is refused for the request or the stage. Then nothing of the session has changed, and the
model that the stage had still serves its own value function. The exception is a call of a session
with slots that is given a floating number with the value of the index that is found: it does not
come to the backend either, but is only found out at its model. -/
theorem asks_or_unchanged_run (setup : Setup S) (calls : List (Call S)) (c : Call S)
    (hrefusal : setup.backend.refusal = none)
    (hdim : ∀ cut ∈ c.function.function.cuts, c.function.function.dim.isCount cut.dim = true) :
    let s := ({} : Session S).run setup calls
    (∃ q, (s.after setup c).asked = s.asked ++ [q]) ∨
      (∃ e, s.result setup c = (s, .error e) ∧ setup.Rejects c.stage e ∧
        ∀ m, s.model? c.stage = some m → (s.after setup c).StillServes setup c.stage m) ∨
      ∃ r m, s.Mislays setup c r m ∧ setup.params.updateMode = .slotReuse ∧
        ∃ x law i, c.index = .num (.real x) ∧ setup.problem.law c.stage = .ok law ∧
          law.indexOf r.noise (.num setup.params.noiseTolerance) = .ok i ∧
          (Number.real x).sameValue (.whole i) = true := by
  intro s
  have hsound := isSound_run setup calls
  rcases hsound.asks_or_unchanged hrefusal hdim with
    hasks | ⟨e, hresult, hrejects⟩ | ⟨r, m, hmislays⟩
  · exact .inl hasks
  · refine .inr (.inl ⟨e, hresult, hrejects, ?_⟩)
    intro m hmodel
    have hafter : s.after setup c = s := congrArg Prod.fst hresult
    rw [hafter]
    exact hsound.stillServes hmodel
  · exact .inr (.inr ⟨r, m, hmislays, hmislays.exists_real⟩)

end Session

namespace Stock

/-- The stock with slots, and a backend that always fails. -/
def reusing : Setup ℚ :=
  ⟨problem .linear, params .slotReuse, { reply _ _ := .failed .noLaws }⟩

/-- A run after which a value function of the wrong dimension asks for a stage that has a model: the
build is refused, and the model is left to its own value function. -/
theorem unchanged_wrongDimension :
    let calls := [call 2 3 [⟨[-1], 5⟩] .null]
    let wrong : Call ℚ := { call 2 1 [] .null with function := ⟨1, .int 2, [⟨[1, 1], 0⟩]⟩ }
    let s := ({} : Session ℚ).run reusing calls
    (s.model? 0).isSome ∧ reusing.backend.refusal = none ∧
      (∀ cut ∈ wrong.function.function.cuts,
        wrong.function.function.dim.isCount cut.dim = true) ∧
      ∃ e, s.result reusing wrong = (s, .error e) ∧ reusing.Rejects 0 e ∧
        ∀ m, s.model? 0 = some m → (s.after reusing wrong).StillServes reusing 0 m := by
  intro calls wrong s
  have hdim : ∀ cut ∈ wrong.function.function.cuts,
      wrong.function.function.dim.isCount cut.dim = true := by decide
  have hidle : (s.after reusing wrong).asked.length = s.asked.length := by decide +kernel
  refine ⟨by decide +kernel, rfl, hdim, ?_⟩
  rcases Session.asks_or_unchanged_run reusing calls wrong rfl hdim with
    ⟨q, hasked⟩ | hrefused | ⟨r, m, -, -, x, _, _, hindex, -⟩
  · rw [hasked, List.length_append] at hidle
    exact absurd hidle (Nat.succ_ne_self _)
  · exact hrefused
  · cases hindex

/-- A floating number is given for the index of a demand, and has its value. The call ends with a
fault and asks the backend nothing, but by then a model has been built for the stage. So it neither
comes to the backend nor leaves the session as it was. -/
theorem changed_floatingIndex :
    let s : Session ℚ := {}
    let c := call 2 3 [] (.num (.real 1))
    reusing.backend.refusal = none ∧
      (∀ cut ∈ c.function.function.cuts, c.function.function.dim.isCount cut.dim = true) ∧
      (s.result reusing c).2 = .error (.notAnIndex "float") ∧ (s.after reusing c).builds = 1 ∧
      ((s.after reusing c).model? 0).isSome ∧
      ¬ ((∃ q, (s.after reusing c).asked = s.asked ++ [q]) ∨
        ∃ e, s.result reusing c = (s, .error e)) := by
  intro s c
  have hasked : (s.after reusing c).asked.length = 0 := by decide +kernel
  have hbuilds : (s.after reusing c).builds = 1 := by decide +kernel
  refine ⟨rfl, by decide, by with_unfolding_all rfl, hbuilds, by decide +kernel, ?_⟩
  rintro (⟨q, hq⟩ | ⟨e, he⟩)
  · rw [hq, List.length_append] at hasked
    exact absurd hasked (Nat.succ_ne_zero _)
  · have hafter : s.after reusing c = s := congrArg Prod.fst he
    rw [hafter] at hbuilds
    exact absurd hbuilds Nat.zero_ne_one

end Stock

end Bellman
