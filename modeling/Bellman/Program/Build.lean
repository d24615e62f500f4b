import Bellman.Program.Basic
import Bellman.ValueFunction

/-!
# Building stage programs

A stage program is built from the problem, the parameters, the number of the stage and the value
function of the next stage. Nothing is targeted yet: the state rows are held wide open, the noise
variables are at zero, and every slot is pinned. The first thing found wrong is the fault that is
reported.
-/

namespace Bellman

open Data

variable {S : Type} [Scalar S]

namespace Body

/-- Constraint rows, each of which has to mention a variable. -/
def constraintRows (rows : List (Expr S)) : Except Fault (List (Expr S)) :=
  if rows.any Expr.isConstant then .error .trivialConstraint else .ok rows

/-- The body in which the noise is a variable with so many coordinates. -/
def buildDirect (problem : Problem S) (stage : Int) (noises : Nat) (model : CostModel)
    (pieces : List (StageCost S)) : Except Fault (Body S) := do
  let view : NoiseView S := .variables noises
  let dynamics ← problem.dynamics stage view
  if !(Value.num problem.states).isCount dynamics.length then
    throw (.dimension "dynamics" (.num problem.states) (.int dynamics.length))
  let equalities ← constraintRows (← problem.equalities stage view)
  let inequalities ← constraintRows (← problem.inequalities stage view)
  let costs ← pieces.mapM fun piece => piece stage view
  let cost : DirectCost S := match model, costs with
    | .linear, [e] => .single e
    | _, es => .largest es
  return .direct ⟨dynamics, equalities, inequalities, cost⟩

/-- The right-hand sides of a pinned slot for so many rows of each kind. -/
def openSides [Neg S] (infinity : S) (states equalities inequalities pieces : Nat) :
    SlotSides S where
  dynamicsLower := List.replicate states (-infinity)
  dynamicsUpper := List.replicate states infinity
  equalityLower := List.replicate equalities (-infinity)
  equalityUpper := List.replicate equalities infinity
  inequalityUpper := List.replicate inequalities infinity
  costLower := List.replicate pieces (-infinity)

/-- The slot of one noise value before its number of rows is compared with the others. -/
def pinnedSlot [Neg S] (infinity : S)
    (dynamics equalities inequalities pieces : List (Expr S)) : NoiseSlot S :=
  ⟨dynamics, equalities, inequalities, pieces,
    openSides infinity dynamics.length equalities.length inequalities.length pieces.length⟩

/-- The body in which the rows of every noise value of the stage are laid out. All of them need the
same number of rows of each kind. -/
def buildSlotted [Neg S] (problem : Problem S) (stage : Int) (infinity : S)
    (pieces : List (StageCost S)) : Except Fault (Body S) := do
  let law ← problem.law stage
  let views : List (NoiseView S) := law.support.map .values
  let dynamics ← views.mapM fun view => problem.dynamics stage view
  let equalities ← views.mapM fun view => problem.equalities stage view
  let inequalities ← views.mapM fun view => problem.inequalities stage view
  let costs ← views.mapM fun view => pieces.mapM fun piece => piece stage view
  match dynamics.zipIdx.find? fun (rows, _) =>
    !(Value.num problem.states).isCount rows.length with
  | some (rows, k) =>
    throw <| .dimension s!"dynamics for noise index {k}" (.num problem.states)
      (.int rows.length)
  | none =>
    let equalityCount := (equalities.headD []).length
    let inequalityCount := (inequalities.headD []).length
    if equalities.any (·.length ≠ equalityCount) ||
        inequalities.any (·.length ≠ inequalityCount) then
      throw (.varyingRowCount stage)
    return .slotted <|
      (dynamics.zip (equalities.zip (inequalities.zip costs))).map fun (d, e, i, c) =>
        pinnedSlot infinity d e i c

end Body

namespace StageProgram

variable [Zero S] [Neg S]

/-- A program with the row of one more cut, which needs a slope for every coordinate of the state.
-/
def addCut (p : StageProgram S) (c : Cut S) : Except Fault (StageProgram S) :=
  if c.dim = p.dimStates then .ok { p with cuts := p.cuts ++ [c] }
  else .error (.dimension "cut lambdas" (.int p.dimStates) (.int c.dim))

/-- The program of a stage against the value function of the next one. -/
def build (problem : Problem S) (params : Parameters) (stage : Int) (v : ValueFunction S) :
    Except Fault (CostModel × StageProgram S) := do
  let (model, pieces) ← problem.costPieces
  let infinity : S ← Scalar.read (.num params.infinity)
  if !v.dim.sameKey (.num problem.states) then
    throw (.dimension "value function" (.num problem.states) v.dim)
  let states ← problem.states.toCount
  let _ ← problem.controls.toCount
  let noises ← problem.noises.toCount
  let futureLower ← Scalar.read params.alphaLowerBound
  let body ← match params.updateMode with
    | .rebuild => Body.buildDirect problem stage noises model pieces
    | .slotReuse => Body.buildSlotted problem stage infinity pieces
  let bare : StageProgram S := {
    stage, stateBounds := problem.stateBounds, controlBounds := problem.controlBounds,
    futureLower, infinity, cutVariable := params.cutVariable,
    stateSides := List.replicate states (-infinity, infinity),
    noise := List.replicate noises 0, body, cuts := [], live := none }
  return (model, ← v.cuts.foldlM addCut bare)

end StageProgram

end Bellman
