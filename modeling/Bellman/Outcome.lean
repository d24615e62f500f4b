import Bellman.Scalar

/-!
# Outcomes

Solving a stage for one state and one noise value either gives an optimal step or finds that no step
is possible.
-/

namespace Bellman

/-- An optimal step of one stage. -/
structure Step (S : Type) where
  nextState : List S
  control : List S
  /-- The rate at which the objective changes with each coordinate of the state. -/
  dualState : List S
  objective : S
  futureCost : S
  deriving DecidableEq, Repr

/-- The request for which a stage has no feasible step, and how the backend put it. -/
structure Infeasibility (S : Type) where
  stage : Int
  state : List S
  noise : List S
  termination : Option String
  deriving DecidableEq, Repr

/-- What solving a stage can come to, other than a fault. -/
inductive Outcome (S : Type) where
  | step (s : Step S)
  | infeasible (i : Infeasibility S)
  deriving DecidableEq, Repr

namespace Outcome

variable {S : Type}

def isFeasible : Outcome S → Bool
  | step _ => true
  | infeasible _ => false

end Outcome

end Bellman
