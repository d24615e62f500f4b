import Bellman.Proofs.Session.History
import Bellman.Proofs.Session.Provenance
import Bellman.Proofs.Session.StoredStep

/-!
# Tangent cuts are lower bounds

The step of a solve gives a cut, with the duals of the state rows as slopes. If the backend proves
the points optimal that it stores, then the cut has the value of the objective at the state solved
for, and in no other state does a feasible point of the stage have an objective below the cut. This
stays so when there are more cuts, which leave no point feasible that was not feasible before.
-/

namespace Bellman

open Data

variable {S : Type}

namespace StageProgram

variable [Scalar S] [CommRing S] {setup : Setup S} {stage : Int}

namespace IsAimed

variable {r : Request S} {q : StageProgram S}

theorem stateSides_eq (h : q.IsAimed setup stage r) :
    q.stateSides = r.state.map fun s => (s, s) := by
  obtain ⟨_, _, parts, cuts, hq⟩ := h
  obtain ⟨_, _, _, rfl, -⟩ := exists_aimed_eq hq
  rfl

theorem dimStates_eq (h : q.IsAimed setup stage r) : q.dimStates = r.state.length := by
  rw [dimStates, h.stateSides_eq, List.length_map]

variable [LT S] [DecidableLT S] {d : Declaration S}

theorem length_stateBounds (h : q.IsAimed setup stage r)
    (hr : r.Fits setup.problem setup.params stage) (haccepted : d.check = .ok setup.problem) :
    q.stateBounds.length = q.dimStates := by
  obtain ⟨_, _, parts, cuts, hq⟩ := h
  obtain ⟨_, _, _, rfl, -⟩ := exists_aimed_eq hq
  have hstates := Number.eq_of_isCount parts.states_eq (d.counts_of_check haccepted).1
  have hstate := Number.eq_of_isCount parts.states_eq hr.state
  exact hstates.trans (hstate.symm.trans (List.length_map _).symm)

/-- All variables in the objective are columns of the program. -/
theorem hasColumn_of_objective (h : q.IsAimed setup stage r)
    (haccepted : d.check = .ok setup.problem) (haffine : setup.problem.IsAffine) {x : Multiple S}
    (hx : .multiple x ∈ q.objective) : q.HasColumn x.column := by
  obtain ⟨_, _, parts, cuts, hq⟩ := h
  obtain ⟨noise, body, live, rfl, hcost, hhas⟩ := exists_aimed_eq hq
  have hcounts := d.counts_of_check haccepted
  have hstates : setup.problem.stateBounds.length = parts.states :=
    Number.eq_of_isCount parts.states_eq hcounts.1
  have hcontrols : setup.problem.controlBounds.length = parts.controls :=
    Number.eq_of_isCount parts.controls_eq hcounts.2
  rcases List.mem_append.mp hx with hx | hx
  · rw [hcost] at hx
    rcases parts.column_of_cost haffine hx with hinput | ⟨hcolumn, hbody⟩
    · cases hcolumn : x.column with
      | state i =>
          rw [hcolumn] at hinput
          exact Nat.lt_of_lt_of_eq hinput hstates.symm
      | control j =>
          rw [hcolumn] at hinput
          exact Nat.lt_of_lt_of_eq hinput hcontrols.symm
      | _ =>
          rw [hcolumn] at hinput
          exact hinput.elim
    · rw [hcolumn]
      exact hhas.trans hbody
  · obtain rfl := Term.multiple.inj (List.mem_singleton.mp hx)
    exact trivial

end IsAimed

end StageProgram

/-- A cut has a value at every plain value that is read as a state of its dimension. -/
theorem Cut.evaluateAt_of_readVector [Scalar S] [Zero S] [Add S] [Mul S] {cut : Cut S}
    {what : String} {v : Value} {state : List S}
    (h : Scalar.readVector what (.int cut.dim) v = .ok state) :
    cut.evaluateAt v = .ok (cut.evaluate state) := by
  have hlength := Scalar.length_of_readVector h
  simp only [Scalar.readVector, bind_eq_ok] at h
  obtain ⟨items, hitems, xs, hxs, h⟩ := h
  split at h
  · obtain rfl := Except.ok.inj h
    have htake : items.take cut.dim = items :=
      List.take_of_length_le ((length_of_mapM hxs).symm.trans hlength).le
    simp only [evaluateAt, hitems, ok_bind, htake, hxs]
    rfl
  · cases h

variable [Scalar S] [CommRing S] [LinearOrder S]

/-- Whether a cut bounds the objective of a stage program from below: in every state that the
program can be targeted to and at all points that are feasible there, also if there are more cuts.
-/
def Cut.BoundsBelow (limit : S) (q : StageProgram S) (cut : Cut S) : Prop :=
  ∀ v q', q.targetState v = .ok q' → ∃ bound, cut.evaluateAt v = .ok bound ∧
    ∀ more point, ({ q' with cuts := q'.cuts ++ more } : StageProgram S).IsFeasibleFor limit point →
      bound ≤ ({ q' with cuts := q'.cuts ++ more } : StageProgram S).value point

variable [IsStrictOrderedRing S] {state : List S} {limit : S} {q : StageProgram S}
variable {cert : Certificate S}

omit [Scalar S] [LinearOrder S] [IsStrictOrderedRing S] in
theorem Cut.evaluate_tangent (state : List S) (step : Step S) :
    (tangent state step).evaluate state = step.objective :=
  sub_add_cancel _ _

omit [IsStrictOrderedRing S] in
theorem Certificate.Proves.length_dualState (h : cert.Proves limit q) :
    (cert.step q).dualState.length = q.dimStates :=
  (List.length_map _).trans h.length_statePrices

/-- The tangent of a step to a point that is proved optimal is a lower bound. -/
theorem Certificate.Proves.boundsBelow (h : cert.Proves limit q)
    (hsides : q.stateSides = state.map fun s => (s, s)) :
    (Cut.tangent state (cert.step q)).BoundsBelow limit q := by
  intro v q' htarget
  obtain ⟨state', hread, rfl⟩ := map_eq_ok.mp htarget
  have hdim : (Cut.tangent state (cert.step q)).dim = q.dimStates := h.length_dualState
  have hlength : state'.length = state.length := by
    rw [Scalar.length_of_readVector hread, StageProgram.dimStates, hsides, List.length_map]
  exact ⟨_, Cut.evaluateAt_of_readVector (hdim ▸ hread),
    fun more point hpoint => h.le_value hsides hlength hpoint⟩

namespace Session

variable [Scalar.IsExact S]

/-- The tangent cut of a step has the objective of the step as its value at the state solved for,
and bounds the objective of the stage program from below in every other state. All that is assumed
of the backend is that it proves the point optimal that it stores. -/
theorem tangentAt_boundsBelow {setup : Setup S} {d : Declaration S} {calls : List (Call S)}
    {c : Call S} {step : Step S} (haccepted : d.check = .ok setup.problem)
    (haffine : setup.problem.IsAffine)
    (hcertified : ∀ q, (({} : Session S).run setup calls).handed setup c = some q →
      (setup.backend.reply (({} : Session S).run setup calls).asked q).IsCertified limit q)
    (hstep : ((({} : Session S).run setup calls).solve setup c.stage c.state c.noise c.function
      c.index).2 = .ok (.step step)) :
    ∃ q cut, (({} : Session S).run setup calls).handed setup c = some q ∧
      Cut.tangentAt c.state step = .ok cut ∧ cut.evaluateAt c.state = .ok step.objective ∧
      cut.BoundsBelow limit q := by
  obtain ⟨-, ⟨e, he⟩ | ⟨r, m, hread, hasks⟩⟩ := (isSound_run setup calls).solve c
  · rw [he] at hstep
    cases hstep
  · have hhanded := handed_eq_some hasks.asked
    have haimed := hasks.aimed
    rw [hasks.outcome] at hstep
    obtain ⟨cert, hproves, rfl⟩ := StageModel.step_of_certified (hcertified _ hhanded)
      (haimed.length_stateBounds (fits_of_readRequest hread) haccepted)
      (fun x hx => haimed.hasColumn_of_objective haccepted haffine hx) hstep
    have hduals : (cert.step m.program).dualState.length = r.state.length :=
      hproves.length_dualState.trans haimed.dimStates_eq
    have hstate : Scalar.readVector "state" (.int (cert.step m.program).dualState.length) c.state =
        .ok r.state :=
      Scalar.readVector_of_isCount (state_of_readRequest hread)
        (hduals ▸ Value.isCount_natCast r.state.length)
    refine ⟨m.program, .tangent r.state (cert.step m.program), hhanded, ?_, ?_,
      hproves.boundsBelow haimed.stateSides_eq⟩
    · rw [Cut.tangentAt, hstate]
      rfl
    · rw [Cut.evaluateAt_of_readVector hstate, Cut.evaluate_tangent]

end Session

namespace Stock

/-- The slot of a demand, with the larger of price and shortage as the cost. -/
def slot (demand lower upper : ℚ) : NoiseSlot ℚ where
  dynamics := [[.single 1 (.state 0), .single 1 (.control 0), .constant (-demand)]]
  equalities := []
  inequalities := [[.single 1 (.state 0), .single 1 (.control 0), .constant (-8)]]
  pieces := [[.single 2 (.control 0)], [.constant demand, .single (-1) (.control 0)]]
  sides := ⟨[lower], [upper], [], [], [upper], [lower, lower]⟩

/-- The program for a stock of two and a demand of one. -/
def targeted : StageProgram ℚ where
  stage := 0
  stateBounds := [⟨.int 0, .int 10⟩]
  controlBounds := [⟨.int 0, .int 5⟩]
  futureLower := 0
  infinity := 10 ^ 20
  cutVariable := .nextState
  stateSides := [(2, 2)]
  noise := [0]
  body := .slotted [slot 1 0 0, slot 3 (-10 ^ 20) (10 ^ 20)]
  cuts := [⟨[-1], 5⟩]
  live := some 0

/-- A third of a unit is ordered, where price and shortage are equal. -/
def solution : Solution ℚ where
  values := [(.state 0, some (.plain (.whole 2))), (.control 0, some (.scalar (1 / 3))),
    (.nextState 0, some (.scalar (4 / 3))), (.future, some (.scalar (11 / 3))),
    (.cost, some (.scalar (2 / 3)))]
  duals := [some (.plain (.whole (-1)))]

/-- Prices that prove the order optimal. -/
def certificate : Certificate ℚ where
  point
    | .state _ => 2
    | .control _ => 1 / 3
    | .nextState _ => 4 / 3
    | .future => 11 / 3
    | .cost => 2 / 3
  columns := [(.state 0, ⟨some 0, some 10⟩), (.control 0, ⟨some 0, some 5⟩),
    (.nextState 0, ⟨some 0, some 10⟩), (.future, ⟨some 0, none⟩), (.cost, ⟨none, none⟩)]
  constant := 19 / 3
  statePrices := [⟨0, 1⟩]
  prices := [⟨0, 1⟩, ⟨0, 0⟩, ⟨0, 0⟩, ⟨0, 0⟩, ⟨2 / 3, 0⟩, ⟨1 / 3, 0⟩, ⟨0, 0⟩, ⟨0, 0⟩, ⟨0, 1⟩,
    ⟨0, 0⟩, ⟨0, 0⟩, ⟨0, 0⟩, ⟨0, 0⟩, ⟨0, 0⟩]

/-- A setup with a backend that first finds no order, and then the optimal one. -/
def certified : Setup ℚ where
  problem := problem .piecewiseLinear
  params := params .slotReuse
  backend := .scripted [.ended .infeasible none none, .ended .optimal none (some solution)]

theorem proves_certificate : certificate.Proves (10 ^ 20) targeted where
  columns := by with_unfolding_all rfl
  feasible := by
    refine ⟨⟨certificate.columns, by with_unfolding_all rfl, ?_⟩, ?_⟩
    · decide +kernel
    · decide +kernel
  statePrices := by decide +kernel
  prices := by decide +kernel
  stationary := by
    intro point
    simp [StageProgram.value, StageProgram.objective, StageProgram.ranges, StageProgram.stateRows,
      StageProgram.cutRows, StageProgram.cutRow, StageProgram.cutColumn, Body.cost, Body.rows,
      NoiseSlot.allRows, NoiseSlot.dynamicsRows, NoiseSlot.equalityRows, NoiseSlot.inequalityRows,
      NoiseSlot.costRows, Row.asRead, RowName.isSlot, Row.ranged, Ranged.ofBox, Price.net, dot,
      total_eq_sum, targeted, slot, certificate]
    ring
  tight := by decide +kernel

theorem reports_solution : solution.Reports certificate where
  values := by
    simp only [certificate, List.forall_mem_cons, List.not_mem_nil, false_implies, implies_true,
      and_true]
    refine ⟨⟨_, rfl, ?_⟩, ⟨_, rfl, ?_⟩, ⟨_, rfl, ?_⟩, ⟨_, rfl, ?_⟩, ⟨_, rfl, ?_⟩⟩ <;>
      with_unfolding_all rfl
  duals := by
    rintro (_ | i) y hy
    · obtain rfl := Option.some.inj hy
      exact ⟨_, rfl, by with_unfolding_all rfl⟩
    · cases hy

/-- A new cut and another demand after a call that found no order: the tangent has slope minus one.
-/
theorem tangentAt_piecewise :
    let s := ({} : Session ℚ).run certified [call 3 3 [] (.int 1)]
    let next := call 2 1 [⟨[-1], 5⟩] .null
    let step : Step ℚ := ⟨[4 / 3], [1 / 3], [-1], 13 / 3, 11 / 3⟩
    (s.solve certified next.stage next.state next.noise next.function next.index).2 =
        .ok (.step step) ∧
      ∃ q cut, s.handed certified next = some q ∧ Cut.tangentAt next.state step = .ok cut ∧
        cut.evaluateAt next.state = .ok step.objective ∧ cut.BoundsBelow (10 ^ 20) q := by
  intro s next step
  have hhanded : s.handed certified next = some targeted := by with_unfolding_all rfl
  have hreply : certified.backend.reply s.asked targeted =
      .ended .optimal none (some solution) := by
    with_unfolding_all rfl
  have hstep : (s.solve certified next.stage next.state next.noise next.function next.index).2 =
      .ok (.step step) := by with_unfolding_all rfl
  refine ⟨hstep, Session.tangentAt_boundsBelow (check_declaration .piecewiseLinear)
    (isAffine_problem .piecewiseLinear) ?_ hstep⟩
  intro q hq
  obtain rfl := Option.some.inj (hhanded.symm.trans hq)
  rw [hreply]
  exact ⟨solution, certificate, rfl, proves_certificate, reports_solution⟩

end Stock

end Bellman
