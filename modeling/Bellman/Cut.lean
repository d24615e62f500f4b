import Bellman.Outcome

/-!
# Cuts

A cut is an affine lower bound on the cost from some stage on, as a function of the state in which
that stage starts. The step of a solved stage gives the cut that touches the stage's cost at the
state solved for: its slopes are the duals of the state and its value there is the optimal
objective.
-/

namespace Bellman

open Data

/-- The affine function `intercept + slopes · state`. -/
structure Cut (S : Type) where
  slopes : List S
  intercept : S
  deriving DecidableEq, Repr

namespace Cut

variable {S : Type} [Zero S] [Add S] [Mul S]

/-- The number of coordinates of the states a cut is about. -/
def dim (c : Cut S) : Nat :=
  c.slopes.length

/-- The value of a cut at a state; coordinates that only one of the two has do not count. -/
def evaluate (c : Cut S) (state : List S) : S :=
  c.intercept + dot c.slopes state

/-- The value of a cut at the leading coordinates of a plain value. -/
def evaluateAt [Scalar S] (c : Cut S) (state : Value) : Except Fault S := do
  let coordinates ← ((← state.items).take c.dim).mapM Scalar.read
  return c.evaluate coordinates

/-- The cut through the objective of a step taken at `state`, with the duals of the state as slopes.
-/
def tangent [Sub S] (state : List S) (step : Step S) : Cut S :=
  ⟨step.dualState, step.objective - dot step.dualState state⟩

/-- The tangent cut at a state given as a plain value. -/
def tangentAt [Sub S] [Scalar S] (state : Value) (step : Step S) : Except Fault (Cut S) := do
  return tangent (← Scalar.readVector "state" (.int step.dualState.length) state) step

/-- The tangent cut of the last outcome of a stage, which has to be a step. -/
def tangentOf [Sub S] [Scalar S] (state : Value) : Option (Outcome S) → Except Fault (Cut S)
  | none => .error (.missingAttribute "NoneType" "dual_state")
  | some (.infeasible _) => .error (.missingAttribute "InfeasibleStage" "dual_state")
  | some (.step step) => tangentAt state step

@[simp] theorem dim_tangent [Sub S] (state : List S) (step : Step S) :
    (tangent state step).dim = step.dualState.length := rfl

end Cut

end Bellman
