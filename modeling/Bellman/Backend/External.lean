import Bellman.Backend.Status
import Bellman.Parameters

/-!
# External solvers

A solver outside of the library is driven by a fixed exchange: it is set up with its executable and
options, asked whether it is available, and asked to solve. A solution is loaded only after an
optimal termination, so that a program never carries values of a solve that failed.
-/

namespace Bellman

open Data

namespace External

/-- A call made to an external solver. -/
inductive Call where
  /-- The executable is set, without being looked for. -/
  | setExecutable (path : Value)
  /-- The solver is asked whether it is available, and not to complain if it is not. -/
  | available
  /-- The solver is asked to solve a program, and not to load a solution. -/
  | solve (program : String) (verbose : Bool) (timeLimit : Option Float)

/-- How an external solver answers a call to solve. -/
inductive Answer where
  /-- The process of the solver failed. -/
  | processFailed (message : String)
  /-- Something else went wrong. -/
  | broke (message : String)
  /-- The solver ended, and may have said in what condition. -/
  | terminated (condition : Option String)

/-- An external solver, as far as the exchange can tell. -/
structure Solver where
  available : Value
  answer : Answer

structure Result where
  status : SolveStatus
  termination : String
  deriving DecidableEq, Repr

namespace Result

/-- How often the solution of a solve is loaded. -/
def loads (r : Result) : Nat :=
  if r.status = .optimal then 1 else 0

end Result

/-- The options of a solver; none if they count as false. -/
def options (params : Parameters) : Except Fault (List (Value × Value)) :=
  match params.options with
  | .map entries => .ok entries
  | v => if v.isTrue then .error (.missingAttribute v.typeName "items") else .ok []

def setUp (params : Parameters) : List Call :=
  if params.executable.isTrue then [.setExecutable params.executable] else []

def request (params : Parameters) (program : String) : Except Fault Call := do
  let timeLimit ← params.timeLimit.mapM Number.toFloat
  return .solve program params.verbose.isTrue timeLimit

def Answer.result (params : Parameters) (program : String) : Answer → Except Fault Result
  | processFailed message =>
    let wording := s!"{params.solver.display} failed on {program}: {message}"
    .error (.backendRefused wording (some "error"))
  | broke message => .error (.backendBroke (some message))
  | terminated none => .ok ⟨.unknown, "None"⟩
  | terminated (some condition) => .ok ⟨.ofTermination condition, condition⟩

/-- The record of an exchange with an external solver. -/
structure Exchange where
  available : Bool
  result : Except Fault Result
  options : List (Value × Value)
  calls : List Call
  loads : Nat

/-- Set a solver up, ask whether it is available, and have it solve a program. -/
def exchange (params : Parameters) (solver : Solver) (program : String) :
    Except Fault Exchange := do
  let options ← options params
  let call := request params program
  let result := call.bind fun _ => solver.answer.result params program
  return {
    available := solver.available.isTrue, result, options,
    calls := setUp params ++ [.available] ++ call.toOption.toList,
    loads := match result with
      | .ok r => r.loads
      | .error _ => 0 }

end External

end Bellman
