import Bellman.Proofs.Problem
import Bellman.Proofs.Program.Feasible
import Bellman.Proofs.Reading
import Bellman.Proofs.ValueFunction
import Mathlib.Data.Set.Finite.Lemmas

/-!
# The program of a stage is the problem of the stage

A stage in some state and with some noise decides on a control and a next state. A program that is
built for the stage, with its targets set, has as feasible points the decisions that the problem
admits, each with a future cost and a cost of the stage. For a given decision the least objective is
the cost of the stage plus the value of the cuts, which are evaluated separately by the value
function.
-/

namespace Bellman

open Data

variable {S : Type}

/-- A state, a control and a next state. -/
structure Decision (S : Type) where
  state : List S
  control : List S
  nextState : List S

namespace Decision

/-- The point of a decision with a future cost and a cost of the stage. -/
def point [Zero S] (d : Decision S) (future cost : S) : Column → S
  | .state i => d.state.getD i 0
  | .control j => d.control.getD j 0
  | .nextState i => d.nextState.getD i 0
  | .future => future
  | .cost => cost

/-- A point of which only the state and the control matter. -/
def inputs [Zero S] (state control : List S) : Column → S :=
  (⟨state, control, []⟩ : Decision S).point 0 0

/-- The state that cuts are evaluated at. -/
def cutState (d : Decision S) : CutVariable → List S
  | .nextState => d.nextState
  | .state => d.state

end Decision

section Specification

variable [Zero S] [Add S] [Mul S]

/-- The values of rows for a noise at a state and a control. -/
def StageRows.valuesAt (rows : StageRows S) (stage : Int) (noise state control : List S) :
    Except Fault (List S) :=
  (rows stage (.variables noise.length)).map fun es =>
    es.map (Expr.eval (fun k => noise.getD k 0) (Decision.inputs state control))

/-- The value of a cost for a noise at a state and a control. -/
def StageCost.valueAt (cost : StageCost S) (stage : Int) (noise state control : List S) :
    Except Fault S :=
  (cost stage (.variables noise.length)).map
    (Expr.eval (fun k => noise.getD k 0) (Decision.inputs state control))

/-- Whether a decision has the dimensions of a problem. -/
structure Decision.Fits (problem : Problem S) (d : Decision S) : Prop where
  state : (Value.num problem.states).isCount d.state.length = true
  control : (Value.num problem.controls).isCount d.control.length = true
  nextState : (Value.num problem.states).isCount d.nextState.length = true

/-- Whether a vector keeps to declared bounds, which all have to be usable. -/
def KeepsTo [Scalar S] [Sub S] [LE S] [DecidableLE S] [LT S] [DecidableLT S]
    (bounds : List DeclaredBounds) (xs : List S) : Prop :=
  List.Forall₂ (fun b x => ∃ box, b.box = .ok box ∧ Within box.lower box.upper x) bounds xs

/-- Whether a problem admits a decision in a state and for a noise. -/
structure Problem.Admits [Scalar S] [Sub S] [LE S] [DecidableLE S] [LT S] [DecidableLT S]
    (problem : Problem S) (stage : Int) (state noise : List S) (d : Decision S) : Prop where
  start : d.state = state
  nextState : problem.dynamics.valuesAt stage noise state d.control = .ok d.nextState
  equalities : ∃ values, problem.equalities.valuesAt stage noise state d.control = .ok values ∧
    ∀ s ∈ values, s = 0
  inequalities : ∃ values,
    problem.inequalities.valuesAt stage noise state d.control = .ok values ∧ ∀ s ∈ values, s ≤ 0
  stateBounds : KeepsTo problem.stateBounds d.state
  controlBounds : KeepsTo problem.controlBounds d.control
  nextStateBounds : KeepsTo problem.stateBounds d.nextState

/-- Whether a number is the cost of a stage: the value of the single piece, or the largest value of
all pieces. -/
def Problem.IsStageCost [LE S] (problem : Problem S) (model : CostModel) (stage : Int)
    (noise state control : List S) (cost : S) : Prop :=
  ∃ pieces values, problem.costPieces = .ok (model, pieces) ∧
    pieces.mapM (fun piece => StageCost.valueAt piece stage noise state control) = .ok values ∧
    match model with
    | .linear => values = [cost]
    | .piecewiseLinear => IsGreatest {s | s ∈ values} cost

end Specification

/-- A relation between lists of one length, place by place. -/
theorem forall₂_iff_getD [Zero S] {α : Type} {R : α → S → Prop} {as : List α} {xs : List S}
    (hlength : xs.length = as.length) :
    List.Forall₂ R as xs ↔ ∀ (i : Nat) (a : α), as[i]? = some a → R a (xs.getD i 0) := by
  constructor
  · intro h i a ha
    obtain ⟨x, hx, hR⟩ := getElem?_of_forall₂ h ha
    rwa [List.getD_eq_getElem?_getD, hx]
  · intro h
    refine List.forall₂_of_length_eq_of_get hlength.symm fun i h₁ h₂ => ?_
    have hR := h i as[i] (List.getElem?_eq_getElem h₁)
    rwa [List.getD_eq_getElem?_getD, List.getElem?_eq_getElem h₂] at hR

theorem eq_iff_getD [Zero S] {xs ys : List S} (hlength : xs.length = ys.length) :
    xs = ys ↔ ∀ (i : Nat) (y : S), ys[i]? = some y → xs.getD i 0 = y := by
  rw [← forall₂_iff_getD (R := fun y x => x = y) hlength]
  constructor
  · rintro rfl
    exact List.forall₂_same.mpr fun _ _ => rfl
  · intro h
    induction h with
    | nil => rfl
    | cons hxy _ ih =>
        rw [hxy, ih (Nat.succ.inj hlength)]

theorem range_map_getD [Zero S] {xs : List S} {n : Nat} (h : xs.length = n) :
    ((List.range n).map fun i => xs.getD i 0) = xs := by
  refine List.ext_getElem (by simp [h]) fun i h₁ h₂ => ?_
  simp [List.getElem?_eq_getElem h₂]

theorem keepsTo_iff [Scalar S] [Zero S] [Sub S] [LE S] [DecidableLE S] [LT S] [DecidableLT S]
    {bounds : List DeclaredBounds} {xs : List S} (hlength : xs.length = bounds.length) :
    KeepsTo bounds xs ↔ ∃ boxes : List (Box S), bounds.mapM DeclaredBounds.box = .ok boxes ∧
      ∀ (i : Nat) (b : Box S), boxes[i]? = some b → Within b.lower b.upper (xs.getD i 0) := by
  constructor
  · intro h
    have split : ∃ boxes : List (Box S),
        List.Forall₂ (fun (b : DeclaredBounds) box => b.box = .ok box) bounds boxes ∧
          List.Forall₂ (fun box x => Within box.lower box.upper x) boxes xs := by
      clear hlength
      induction h with
      | nil => exact ⟨[], .nil, .nil⟩
      | cons hb _ ih =>
          obtain ⟨box, hbox, hx⟩ := hb
          obtain ⟨boxes, hboxes, hxs⟩ := ih
          exact ⟨box :: boxes, .cons hbox hboxes, .cons hx hxs⟩
    obtain ⟨boxes, hboxes, hxs⟩ := split
    exact ⟨boxes, mapM_eq_ok.mpr hboxes, (forall₂_iff_getD hxs.length_eq.symm).mp hxs⟩
  · rintro ⟨boxes, hboxes, hxs⟩
    have hboxes' := mapM_eq_ok.mp hboxes
    refine (forall₂_iff_getD hlength).mpr fun i b hb => ?_
    obtain ⟨box, hbox, hb⟩ := getElem?_of_forall₂ hboxes' hb
    exact ⟨box, hb, hxs i box hbox⟩

theorem DirectCost.mem_of_mem_bounded {model : CostModel} {costs : List (Expr S)} {e : Expr S}
    (h : e ∈ (ofPieces model costs).bounded) : e ∈ costs := by
  unfold ofPieces at h
  split at h
  · cases h
  · exact h

theorem DirectRows.IsBuilt.isScoped_bounded {problem : Problem S} {stage : Int} {noises : Nat}
    {model : CostModel} {pieces : List (StageCost S)} {r : DirectRows S} {shape : Shape}
    (hr : r.IsBuilt problem stage noises model pieces) (haffine : problem.IsAffine)
    (hshape : problem.HasShape shape) (hpieces : problem.costPieces = .ok (model, pieces)) :
    ∀ e ∈ r.cost.bounded, e.IsScoped shape := by
  obtain ⟨costs, hcosts, hcost⟩ := hr.cost
  obtain ⟨-, -, -, hscoped⟩ := hr.areScoped haffine hshape hpieces hcosts
  rw [hcost]
  intro e he
  exact hscoped e (DirectCost.mem_of_mem_bounded he)

section Points

variable [CommRing S]

/-- A scoped expression does not look beyond state and control. -/
theorem Expr.IsScoped.eval_point {shape : Shape} {e : Expr S} (h : e.IsScoped shape) (w : Nat → S)
    (d : Decision S) (future cost : S) :
    e.eval w (d.point future cost) =
      e.eval w (Decision.inputs d.state d.control) := by
  refine h.eval_congr fun c hc => ?_
  cases c with
  | state i => rfl
  | control j => rfl
  | nextState i => exact absurd hc id
  | future => exact absurd hc id
  | cost => exact absurd hc id

theorem map_eval_point {shape : Shape} {es : List (Expr S)} (h : ∀ e ∈ es, e.IsScoped shape)
    (w : Nat → S) (d : Decision S) (future cost : S) :
    es.map (Expr.eval w (d.point future cost)) =
      es.map (Expr.eval w (Decision.inputs d.state d.control)) :=
  List.map_congr_left fun e he => (h e he).eval_point w d future cost

variable [Scalar S] [LinearOrder S] {p : StageProgram S} {v : ValueFunction S}

/-- What a program asks of the point of a decision whatever the noise is. The cuts and the bound
from below say that the future cost is at least the value of the cuts. -/
theorem StageProgram.frames_point_iff {d : Decision S} {state : List S} {future cost : S}
    (hstate : d.state.length = p.stateBounds.length)
    (hcontrol : d.control.length = p.controlBounds.length)
    (hnextState : d.nextState.length = p.stateBounds.length)
    (hlength : state.length = p.stateBounds.length)
    (hcuts : ∀ c ∈ p.cuts, c.dim = p.stateBounds.length) (hv : v.cuts = p.cuts) :
    p.Frames state (d.point future cost) ↔
      d.state = state ∧ KeepsTo p.stateBounds d.state ∧ KeepsTo p.controlBounds d.control ∧
        KeepsTo p.stateBounds d.nextState ∧
        v.boundedBelow p.futureLower (d.cutState p.cutVariable) ≤ future := by
  have hboxes : p.KeepsToBoxes (d.point future cost) ↔
      KeepsTo p.stateBounds d.state ∧ KeepsTo p.controlBounds d.control ∧
        KeepsTo p.stateBounds d.nextState ∧ p.futureLower ≤ future := by
    rw [keepsToBoxes_iff, keepsTo_iff hstate, keepsTo_iff hcontrol, keepsTo_iff hnextState]
    constructor
    · rintro ⟨sb, cb, hsb, hcb, hs, hc, hf⟩
      exact ⟨⟨sb, hsb, fun i b hb => (hs i b hb).1⟩, ⟨cb, hcb, hc⟩,
        ⟨sb, hsb, fun i b hb => (hs i b hb).2⟩, hf⟩
    · rintro ⟨⟨sb, hsb, hs⟩, ⟨cb, hcb, hc⟩, ⟨sb', hsb', hn⟩, hf⟩
      obtain rfl := Except.ok.inj (hsb.symm.trans hsb')
      exact ⟨sb, cb, hsb, hcb, fun i b hb => ⟨hs i b hb, hn i b hb⟩, hc, hf⟩
  have hstart : d.state = state ↔
      ∀ (i : Nat) (x : S), state[i]? = some x → d.point future cost (.state i) = x :=
    eq_iff_getD (hstate.trans hlength.symm)
  have hvalue : ∀ c ∈ p.cuts,
      ((List.range c.dim).map fun i => d.point future cost (p.cutColumn i)) =
        d.cutState p.cutVariable := by
    intro c hc
    rw [hcuts c hc]
    unfold StageProgram.cutColumn
    cases p.cutVariable with
    | nextState => exact range_map_getD hnextState
    | state => exact range_map_getD hstate
  rw [ValueFunction.boundedBelow_le_iff, hv]
  constructor
  · rintro ⟨hb, hs, hc⟩
    obtain ⟨h₁, h₂, h₃, h₄⟩ := hboxes.mp hb
    refine ⟨hstart.mpr hs, h₁, h₂, h₃, h₄, fun c hmem => ?_⟩
    have := hc c hmem
    rwa [hvalue c hmem] at this
  · rintro ⟨hs, h₁, h₂, h₃, h₄, hc⟩
    refine ⟨hboxes.mpr ⟨h₁, h₂, h₃, h₄⟩, hstart.mp hs, fun c hmem => ?_⟩
    rw [hvalue c hmem]
    exact hc c hmem

variable {problem : Problem S} {stage : Int} {model : CostModel} {state noise : List S}
variable {r : DirectRows S} {pieces : List (StageCost S)} {costs : List (Expr S)} {d : Decision S}

omit [Scalar S] [LinearOrder S] in
theorem StageRows.valuesAt_eq {rows : StageRows S} {es : List (Expr S)}
    (h : rows stage (.variables noise.length) = .ok es) (state control : List S) :
    rows.valuesAt stage noise state control = .ok (es.map
      (Expr.eval (fun k => noise.getD k 0) (Decision.inputs state control))) := by
  rw [valuesAt, h]
  rfl

omit [Scalar S] in
/-- What the rows ask of the point of a decision when the noise is a variable. -/
theorem DirectRows.IsBuilt.obeys_point_iff {bounded : List (Expr S)} {future cost : S}
    {shape : Shape} (hr : r.IsBuilt problem stage noise.length model pieces)
    (haffine : problem.IsAffine) (hshape : problem.HasShape shape)
    (hbounded : ∀ e ∈ bounded, e.IsScoped shape)
    (hlength : d.nextState.length = r.dynamics.length) :
    Obeys r.dynamics r.equalities r.inequalities bounded (fun k => noise.getD k 0)
        (d.point future cost) ↔
      problem.dynamics.valuesAt stage noise d.state d.control = .ok d.nextState ∧
      (∃ values, problem.equalities.valuesAt stage noise d.state d.control = .ok values ∧
        ∀ s ∈ values, s = 0) ∧
      (∃ values, problem.inequalities.valuesAt stage noise d.state d.control = .ok values ∧
        ∀ s ∈ values, s ≤ 0) ∧
      ∀ s ∈ bounded.map (Expr.eval (fun k => noise.getD k 0)
        (Decision.inputs d.state d.control)), s ≤ cost := by
  have hdynamics : ∀ values : List S, values.length = r.dynamics.length →
      ((∀ (i : Nat) (s : S), values[i]? = some s → d.point future cost (.nextState i) = s) ↔
        values = d.nextState) := by
    intro values hvalues
    rw [eq_comm]
    exact (eq_iff_getD (hlength.trans hvalues.symm)).symm
  rw [obeys_iff_values, map_eval_point (haffine.dynamics shape hshape _ _ _ hr.dynamics),
    map_eval_point (haffine.equalities shape hshape _ _ _ hr.equalities),
    map_eval_point (haffine.inequalities shape hshape _ _ _ hr.inequalities),
    map_eval_point hbounded, hdynamics _ (List.length_map _), StageRows.valuesAt_eq hr.dynamics,
    StageRows.valuesAt_eq hr.equalities, StageRows.valuesAt_eq hr.inequalities]
  simp only [Except.ok.injEq, exists_eq_left', Decision.point]

omit [Scalar S] [LinearOrder S] in
theorem StageCost.mapM_valueAt_eq
    (h : pieces.mapM (fun piece => piece stage (.variables noise.length)) = .ok costs)
    (state control : List S) :
    pieces.mapM (fun piece => StageCost.valueAt piece stage noise state control) = .ok (costs.map
      (Expr.eval (fun k => noise.getD k 0) (Decision.inputs state control))) := by
  refine mapM_eq_ok.mpr (List.forall₂_map_right_iff.mpr ((mapM_eq_ok.mp h).imp ?_))
  intro piece e he
  rw [valueAt, he]
  rfl

omit [Scalar S] in
/-- The cost of a stage is the least that the rows of its pieces allow: nothing they allow is below
it, and it is attained. -/
theorem DirectRows.IsBuilt.exists_stageCost
    {shape : Shape} (hr : r.IsBuilt problem stage noise.length model pieces)
    (haffine : problem.IsAffine) (hshape : problem.HasShape shape)
    (hpieces : problem.costPieces = .ok (model, pieces)) (d : Decision S) :
    ∃ cost, problem.IsStageCost model stage noise d.state d.control cost ∧
      (∀ future c, (∀ s ∈ r.cost.bounded.map (Expr.eval (fun k => noise.getD k 0)
          (Decision.inputs d.state d.control)), s ≤ c) →
        cost ≤ (Body.direct r).cost.eval (fun k => noise.getD k 0) (d.point future c)) ∧
      ∃ c, (∀ s ∈ r.cost.bounded.map (Expr.eval (fun k => noise.getD k 0)
          (Decision.inputs d.state d.control)), s ≤ c) ∧
        ∀ future,
          (Body.direct r).cost.eval (fun k => noise.getD k 0) (d.point future c) = cost := by
  obtain ⟨costs, hcosts, hcost⟩ := hr.cost
  obtain ⟨-, -, -, hscoped⟩ := hr.areScoped haffine hshape hpieces hcosts
  have hvalues := StageCost.mapM_valueAt_eq hcosts d.state d.control
  cases model with
  | linear =>
      obtain ⟨piece, rfl⟩ := Problem.exists_piece hpieces
      obtain ⟨e, rfl⟩ := List.length_eq_one_iff.mp (length_of_mapM hcosts)
      have hbody : (Body.direct r).cost = e := Body.cost_of_single hcost
      have heval : ∀ future c, e.eval (fun k => noise.getD k 0) (d.point future c) =
          e.eval (fun k => noise.getD k 0) (Decision.inputs d.state d.control) :=
        (hscoped e List.mem_cons_self).eval_point _ d
      refine ⟨_, ⟨_, _, hpieces, hvalues, rfl⟩, ?_, 0, ?_, ?_⟩
      · intro future c _
        rw [hbody, heval]
      · intro s hs
        rw [hcost] at hs
        cases hs
      · intro future
        rw [hbody, heval]
  | piecewiseLinear =>
      have hbody : (Body.direct r).cost = [.ofColumn .cost] := Body.cost_of_largest hcost
      have heval : ∀ future c, Expr.eval (fun k => noise.getD k 0) (d.point future c)
          [.ofColumn .cost] = c := by
        intro future c
        rw [Expr.eval_cons, Expr.eval_nil, Term.eval_ofColumn, add_zero]
        rfl
      have hbounded : r.cost.bounded = costs := by
        rw [hcost]
        rfl
      have hne : costs.map (Expr.eval (fun k => noise.getD k 0)
          (Decision.inputs d.state d.control)) ≠ [] := by
        have hlength := length_of_mapM hcosts
        have hpos := List.length_pos_iff.mpr (Problem.pieces_ne_nil hpieces)
        rw [← List.length_pos_iff, List.length_map]
        omega
      obtain ⟨cost, hmem, hmax⟩ := Set.exists_max_image {s | s ∈ costs.map
        (Expr.eval (fun k => noise.getD k 0) (Decision.inputs d.state d.control))} id
        (List.finite_toSet _) (List.exists_mem_of_ne_nil _ hne)
      rw [hbody, hbounded]
      refine ⟨cost, ⟨_, _, hpieces, hvalues, hmem, hmax⟩, ?_, cost, hmax, fun future => heval _ _⟩
      intro future c hc
      rw [heval]
      exact hc cost hmem

variable [IsStrictOrderedRing S]

/-- What it means that a program is the problem of a stage in a state and for a noise, if the future
has some value for every decision. -/
structure StageProgram.IsStageProblem (problem : Problem S) (model : CostModel) (stage : Int)
    (state noise : List S) (value : Decision S → S) (q : StageProgram S) : Prop where
  /-- A decision extends to a feasible point exactly if the problem admits it. -/
  feasible : ∀ d : Decision S, d.Fits problem →
    ((∃ future cost, q.IsFeasible (d.point future cost)) ↔ problem.Admits stage state noise d)
  /-- The least objective for a decision is the cost of the stage and the value of the future, and
  is attained only if the future cost is that value. -/
  least : ∀ d : Decision S, d.Fits problem → problem.Admits stage state noise d →
    ∃ cost, problem.IsStageCost model stage noise state d.control cost ∧
      IsLeast {y | ∃ future c, q.IsFeasible (d.point future c) ∧ y = q.value (d.point future c)}
        (cost + value d) ∧
      ∀ future c, q.IsFeasible (d.point future c) →
        q.value (d.point future c) = cost + value d → future = value d
  /-- A decision that is optimal has the value of the future as its future cost. -/
  minimizer : ∀ d : Decision S, d.Fits problem → ∀ future c, q.IsFeasible (d.point future c) →
    (∀ d' : Decision S, d'.Fits problem → ∀ future' c', q.IsFeasible (d'.point future' c') →
      q.value (d.point future c) ≤ q.value (d'.point future' c')) → future = value d

/-- The epigraph argument: if future costs are at least a value, and the objective is at least a
cost of the stage plus the future cost and can be equal to it, then all that is asked of the problem
of a stage follows. -/
theorem StageProgram.IsStageProblem.of_bounds {q : StageProgram S} {value : Decision S → S}
    (hfeasible : ∀ d : Decision S, d.Fits problem → ∀ future c, q.IsFeasible (d.point future c) →
      problem.Admits stage state noise d ∧ value d ≤ future)
    (hleast : ∀ d : Decision S, d.Fits problem → problem.Admits stage state noise d →
      ∃ cost, problem.IsStageCost model stage noise state d.control cost ∧
        (∀ future c, q.IsFeasible (d.point future c) →
          cost + future ≤ q.value (d.point future c)) ∧
        ∃ c, q.IsFeasible (d.point (value d) c) ∧
          q.value (d.point (value d) c) = cost + value d) :
    q.IsStageProblem problem model stage state noise value := by
  refine ⟨fun d hd => ⟨?_, fun h => ?_⟩, fun d hd h => ?_, fun d hd future c h hmin => ?_⟩
  · rintro ⟨future, c, h⟩
    exact (hfeasible d hd future c h).1
  · obtain ⟨cost, -, -, c, hc, -⟩ := hleast d hd h
    exact ⟨value d, c, hc⟩
  · obtain ⟨cost, hcost, hbound, c₀, hc₀, hvalue⟩ := hleast d hd h
    refine ⟨cost, hcost, ⟨⟨value d, c₀, hc₀, hvalue.symm⟩, ?_⟩, fun future c hpoint heq => ?_⟩
    · rintro _ ⟨future, c, hpoint, rfl⟩
      calc
        cost + value d ≤ cost + future := by
          exact add_le_add_right (hfeasible d hd future c hpoint).2 cost
        _ ≤ q.value (d.point future c) := hbound future c hpoint
    · have hle := hbound future c hpoint
      rw [heq, add_le_add_iff_left] at hle
      exact le_antisymm hle (hfeasible d hd future c hpoint).2
  · obtain ⟨hadmits, hfuture⟩ := hfeasible d hd future c h
    obtain ⟨cost, -, hbound, c₀, hc₀, hvalue⟩ := hleast d hd hadmits
    have hle := (hbound future c h).trans (hmin d hd (value d) c₀ hc₀)
    rw [hvalue, add_le_add_iff_left] at hle
    exact le_antisymm hle hfuture

/-- The points of a decision that are feasible for the program of a stage. -/
theorem StageProgram.Parts.isFeasible_point_iff {params : Parameters} {declaration : Declaration S}
    (parts : Parts problem params stage v.dim model) (haccepted : declaration.check = .ok problem)
    (haffine : problem.IsAffine) (hbody : parts.body = .direct r)
    (hr : r.IsBuilt problem stage noise.length model parts.pieces)
    (fits : ∀ c ∈ v.cuts, c.dim = parts.states)
    (hstate : (Value.num problem.states).isCount state.length = true) (hd : d.Fits problem)
    (future c : S) :
    (((parts.program v.cuts).setState state).setNoise noise).IsFeasible (d.point future c) ↔
      problem.Admits stage state noise d ∧
      v.boundedBelow parts.futureLower (d.cutState params.cutVariable) ≤ future ∧
      ∀ s ∈ r.cost.bounded.map (Expr.eval (fun k => noise.getD k 0)
        (Decision.inputs d.state d.control)), s ≤ c := by
  have hcounts := declaration.counts_of_check haccepted
  have hstates := Number.eq_of_isCount parts.states_eq hcounts.1
  have hcontrols := Number.eq_of_isCount parts.controls_eq hcounts.2
  have hn := Number.eq_of_isCount parts.states_eq hd.state
  have hm := Number.eq_of_isCount parts.controls_eq hd.control
  have hn' := Number.eq_of_isCount parts.states_eq hd.nextState
  have hs := Number.eq_of_isCount parts.states_eq hstate
  have hrows := Number.eq_of_isCount parts.states_eq hr.count
  have hscoped := hr.isScoped_bounded haffine parts.hasShape parts.costPieces_eq
  rw [isFeasible_setNoise_iff (p := parts.program v.cuts) hbody noise,
    frames_point_iff (p := parts.program v.cuts) (hn.trans hstates.symm) (hm.trans hcontrols.symm)
      (hn'.trans hstates.symm) (hs.trans hstates.symm)
      (fun cut hcut => (fits cut hcut).trans hstates.symm) rfl,
    hr.obeys_point_iff haffine parts.hasShape hscoped (hn'.trans hrows.symm)]
  constructor
  · rintro ⟨⟨rfl, h₁, h₂, h₃, hf⟩, h₄, h₅, h₆, hc⟩
    exact ⟨⟨rfl, h₄, h₅, h₆, h₁, h₂, h₃⟩, hf, hc⟩
  · rintro ⟨⟨rfl, h₄, h₅, h₆, h₁, h₂, h₃⟩, hf, hc⟩
    exact ⟨⟨rfl, h₁, h₂, h₃, hf⟩, h₄, h₅, h₆, hc⟩

/-- The program that is built for a stage, targeted to a state and a noise, is the problem of the
stage. The value of the future is that of the cuts at the state that they are written over, or the
bound from below if that is larger or there are no cuts. -/
theorem StageProgram.isStageProblem_build (params : Parameters) {declaration : Declaration S}
    {lower : S} (haccepted : declaration.check = .ok problem) (haffine : problem.IsAffine)
    (hbuild : build problem { params with updateMode := .rebuild } stage v = .ok (model, p))
    (hlower : Scalar.read params.alphaLowerBound = .ok lower)
    (hstate : (Value.num problem.states).isCount state.length = true)
    (hnoise : (Value.num problem.noises).isCount noise.length = true) :
    ((p.setState state).setNoise noise).IsStageProblem problem model stage state noise
      fun d => v.boundedBelow lower (d.cutState params.cutVariable) := by
  obtain ⟨parts, fits, rfl⟩ := build_eq_ok_iff.mp hbuild
  obtain rfl : parts.futureLower = lower :=
    Except.ok.inj (parts.futureLower_eq.symm.trans hlower)
  obtain ⟨r, hbody, hr⟩ := parts.exists_rows rfl
  rw [← Number.eq_of_isCount parts.noises_eq hnoise] at hr
  have hfeasible : ∀ d : Decision S, d.Fits problem → ∀ future c,
      ((((parts.program v.cuts).setState state).setNoise noise).IsFeasible (d.point future c) ↔
        problem.Admits stage state noise d ∧
        v.boundedBelow parts.futureLower (d.cutState params.cutVariable) ≤ future ∧
        ∀ s ∈ r.cost.bounded.map (Expr.eval (fun k => noise.getD k 0)
          (Decision.inputs d.state d.control)), s ≤ c) :=
    fun d hd => parts.isFeasible_point_iff haccepted haffine hbody hr fits hstate hd
  have hvalue : ∀ (d : Decision S) future c,
      (((parts.program v.cuts).setState state).setNoise noise).value (d.point future c) =
        (Body.direct r).cost.eval (fun k => noise.getD k 0) (d.point future c) + future := by
    intro d future c
    rw [value_eq]
    change parts.body.cost.eval _ _ + _ = _
    rw [hbody]
    rfl
  refine .of_bounds (fun d hd future c h => ?_) fun d hd hadmits => ?_
  · obtain ⟨hadmits, hfuture, -⟩ := (hfeasible d hd future c).mp h
    exact ⟨hadmits, hfuture⟩
  · obtain ⟨cost, hcost, hbound, c₀, hc₀, hattained⟩ :=
      hr.exists_stageCost haffine parts.hasShape parts.costPieces_eq d
    rw [hadmits.start] at hcost
    refine ⟨cost, hcost, fun future c h => ?_, c₀,
      (hfeasible d hd _ c₀).mpr ⟨hadmits, le_rfl, hc₀⟩, ?_⟩
    · rw [hvalue]
      exact add_le_add_left (hbound future c ((hfeasible d hd future c).mp h).2.2) future
    · rw [hvalue, hattained]

end Points

/-- The first stage of the stock, for a stock of two and a demand of three. -/
theorem Stock.isStageProblem_linear :
    ∃ p, StageProgram.build (problem .linear) (params .rebuild) 0 future = .ok (.linear, p) ∧
      ((p.setState [2]).setNoise [3]).IsStageProblem (problem .linear) .linear 0 [2] [3]
        fun d => future.boundedBelow 0 d.nextState := by
  obtain ⟨p, hbuild⟩ : ∃ p, StageProgram.build (problem .linear) (params .rebuild) 0 future =
      .ok (.linear, p) := ⟨_, rfl⟩
  exact ⟨p, hbuild, StageProgram.isStageProblem_build (params .rebuild)
    (check_declaration .linear) (isAffine_problem .linear) hbuild rfl rfl rfl⟩

end Bellman
