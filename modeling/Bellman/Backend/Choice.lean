import Bellman.Backend.Exact
import Bellman.Backend.External

/-!
# The choice of a backend

Parameters ask for a solver by name. Only the exact backend can solve: without a name it is the
registry of solvers itself that is asked, and under any other name there is no solver. What is asked
of something that cannot do it is a fault, and so is an executable, which none of them takes.
-/

namespace Bellman

open Data

/-- What the name of a solver stands for. -/
inductive SolverChoice where
  /-- The exact backend. -/
  | exact
  /-- The registry of solvers, which cannot solve. -/
  | registry
  /-- No solver at all. -/
  | unknown
  deriving DecidableEq, Repr

namespace SolverChoice

def exactName : String :=
  "appsi_highs"

def ofName (name : Value) : SolverChoice :=
  match name with
  | .null => registry
  | name => if name.sameKey (.text exactName) then exact else unknown

/-- The fault of asking something of a choice that it does not have. -/
def lacks (ability : String) : SolverChoice → Fault
  | exact => .missingAttribute "LegacySolver" ability
  | registry => .missingAttribute "SolverFactoryClass" ability
  | unknown => .backendBroke none

/-- Why a choice cannot be set up, if so. -/
def refusal? (params : Parameters) (choice : SolverChoice) : Option Fault :=
  if params.executable.isTrue then some (choice.lacks "set_executable")
  else match External.options params with
    | .error e => some e
    | .ok options =>
      if choice = registry && !options.isEmpty then some (choice.lacks "options") else none

/-- Whether a choice can solve, if that can be asked of it. -/
def isAvailable : SolverChoice → Except Fault Bool
  | exact => .ok true
  | registry => .error (registry.lacks "available")
  | unknown => .ok false

def reply (p : StageProgram Float) : SolverChoice → Reply Float
  | exact => Exact.reply p
  | registry => .failed (registry.lacks "solve")
  | unknown => .failed (.backendBroke none)

end SolverChoice

namespace Backend

/-- Whether the solver that parameters ask for can be used, if it can be set up. -/
def availability (params : Parameters) : Except Fault Bool :=
  let choice := SolverChoice.ofName params.solver
  match choice.refusal? params with
  | some e => .error e
  | none => choice.isAvailable

def ofParameters (params : Parameters) : Backend Float where
  refusal := (SolverChoice.ofName params.solver).refusal? params
  reply _ p :=
    match External.request params p.name with
    | .error e => .failed e
    | .ok _ => (SolverChoice.ofName params.solver).reply p

end Backend

end Bellman
