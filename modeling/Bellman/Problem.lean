import Bellman.Expr
import Bellman.Noise.Law
import Bellman.Problem.CostModel

/-!
# Multistage problems

A problem declares the boxes of states and controls, the rows and costs of a stage as functions of
the stage number, and the noise law of every stage. A stage function sees the noise either as
variables, whose values come later, or as the values themselves. `Declaration.check` accepts a
declaration whose dimensions agree and whose boxes are not empty; what the cost model asks for is
looked at only when a stage program is built.
-/

namespace Bellman

open Data

/-- The noise as a stage function sees it. -/
inductive NoiseView (S : Type) where
  /-- Variables whose values come later, so many of them. -/
  | variables (count : Nat)
  /-- Values that are known. -/
  | values (w : List S)

/-- The rows a stage has for a view of the noise. -/
abbrev StageRows (S : Type) := Int → NoiseView S → Except Fault (List (Expr S))

/-- A cost of a stage for a view of the noise. -/
abbrev StageCost (S : Type) := Int → NoiseView S → Except Fault (Expr S)

inductive DeclaredCost (S : Type) where
  /-- One function. -/
  | single (piece : StageCost S)
  /-- A list of functions. -/
  | several (pieces : List (StageCost S))
  /-- A plain value, which no cost model can use. -/
  | plain (v : Value)

namespace DeclaredCost

variable {S : Type}

/-- The cost functions under a cost model. -/
def pieces (model : CostModel) (cost : DeclaredCost S) : Except Fault (List (StageCost S)) :=
  match model, cost with
  | .linear, single piece => .ok [piece]
  | .linear, several _ => .error (singleExpected "list")
  | .linear, plain v => .error (singleExpected v.typeName)
  | .piecewiseLinear, single piece => .ok [piece]
  | .piecewiseLinear, several [] => .error severalExpected
  | .piecewiseLinear, several pieces => .ok pieces
  | .piecewiseLinear, plain v => do
    let _ ← v.items
    .error severalExpected
where
  singleExpected (typeName : String) : Fault :=
    .unsupportedCost (.text s!"LINEAR expects a single callable, got {typeName}")
  severalExpected : Fault :=
    .unsupportedCost (.text "PIECEWISE_LINEAR expects a non-empty list of callables")

end DeclaredCost

/-- A pair of bounds as they were declared; either may be absent. -/
structure DeclaredBounds where
  lower : Value
  upper : Value

/-- A multistage problem whose dimensions agree. They are kept as they were given. -/
structure Problem (S : Type) where
  states : Number
  controls : Number
  noises : Number
  stateBounds : List DeclaredBounds
  controlBounds : List DeclaredBounds
  dynamics : StageRows S
  equalities : StageRows S
  inequalities : StageRows S
  cost : DeclaredCost S
  costModel : Value
  laws : Option (List (NoiseLaw S))

namespace Problem

variable {S : Type}

def law (p : Problem S) (stage : Int) : Except Fault (NoiseLaw S) :=
  match p.laws with
  | none => .error .noLaws
  | some laws =>
    match if stage < 0 then none else laws[stage.toNat]? with
    | some law => .ok law
    | none => .error (.noLaw stage laws.length)

/-- The cost model and the cost functions it works with. -/
def costPieces (p : Problem S) : Except Fault (CostModel × List (StageCost S)) := do
  let model ← CostModel.parse p.costModel
  return (model, ← p.cost.pieces model)

end Problem

/-- A problem as it is declared, before anything about it is known. -/
structure Declaration (S : Type) where
  states : Value
  controls : Value
  noises : Value
  stateBounds : Value
  controlBounds : Value
  dynamics : StageRows S
  equalities : StageRows S := fun _ _ => .ok []
  inequalities : StageRows S := fun _ _ => .ok []
  cost : DeclaredCost S
  costModel : Value := .text CostModel.linear.keyword
  laws : Option (List (NoiseLaw S)) := none

namespace Declaration

variable {S : Type} [Scalar S] [LT S] [DecidableLT S]

/-- The elements of each of the elements of a value. -/
def boundLists (bounds : Value) : Except Fault (List (List Value)) := do
  (← bounds.items).mapM Value.items

/-- The boxes a list of bounds describes, none of which may be empty. -/
def readBounds (S : Type) [Scalar S] [LT S] [DecidableLT S] (name : String)
    (bounds : List (List Value)) : Except Fault (List DeclaredBounds) :=
  bounds.zipIdx.mapM fun (pair, i) => do
    match pair with
    | [lower, upper] =>
      match lower, upper with
      | .null, _ => pure ⟨lower, upper⟩
      | _, .null => pure ⟨lower, upper⟩
      | _, _ => do
        let lo : S ← Scalar.read lower
        let hi : S ← Scalar.read upper
        if hi < lo then throw (.emptyBox name i lower upper)
        pure ⟨lower, upper⟩
    | [] => throw (.tooFewToUnpack 0)
    | [_] => throw (.tooFewToUnpack 1)
    | _ => throw .tooManyToUnpack

/-- A dimension as a number, unless that number is below what is allowed. -/
def readDimension (d : Declaration S) (isTooLow : Number → Bool) (dimension : Value) :
    Except Fault Number := do
  let n ← dimension.compared "<"
  if isTooLow n then throw (.invalidDimensions d.states d.controls d.noises)
  return n

/-- The problem of a declaration, if its dimensions agree and no box is empty. -/
def check (d : Declaration S) : Except Fault (Problem S) := do
  let states ← d.readDimension Number.isBelowOne d.states
  let controls ← d.readDimension Number.isBelowOne d.controls
  let noises ← d.readDimension Number.isNegative d.noises
  let stateBounds ← boundLists d.stateBounds
  let controlBounds ← boundLists d.controlBounds
  if !d.states.isCount stateBounds.length then
    throw (.dimension "x_bounds" d.states (.int stateBounds.length))
  if !d.controls.isCount controlBounds.length then
    throw (.dimension "u_bounds" d.controls (.int controlBounds.length))
  let stateBounds ← readBounds S "x_bounds" stateBounds
  let controlBounds ← readBounds S "u_bounds" controlBounds
  match (d.laws.getD []).zipIdx.find? fun (law, _) => !d.noises.isCount law.dim with
  | some (law, t) => throw (.dimension s!"noise law of stage {t}" d.noises (.int law.dim))
  | none => return {
    states, controls, noises, stateBounds, controlBounds, dynamics := d.dynamics,
    equalities := d.equalities, inequalities := d.inequalities, cost := d.cost,
    costModel := d.costModel, laws := d.laws }

end Declaration

end Bellman
