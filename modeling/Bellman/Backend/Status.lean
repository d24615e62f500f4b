/-!
# Statuses and terminations

A backend says in its own words how a solve ended; its termination conditions fall into five
statuses.
-/

namespace Bellman

/-- What a termination condition means for the stage. -/
inductive SolveStatus where
  | optimal
  | feasible
  | infeasible
  | unbounded
  | unknown
  deriving DecidableEq, Repr

namespace SolveStatus

def keyword : SolveStatus → String
  | optimal => "OPTIMAL"
  | feasible => "FEASIBLE"
  | infeasible => "INFEASIBLE"
  | unbounded => "UNBOUNDED"
  | unknown => "UNKNOWN"

def ofKeyword? (s : String) : Option SolveStatus :=
  [optimal, feasible, infeasible, unbounded, unknown].find? (·.keyword = s)

/-- The status of a termination condition; conditions that are not listed say nothing. -/
def ofTermination : String → SolveStatus
  | "optimal" => optimal
  | "feasible" => feasible
  | "maxTimeLimit" => feasible
  | "infeasible" => infeasible
  | "infeasibleOrUnbounded" => infeasible
  | "unbounded" => unbounded
  | _ => unknown

end SolveStatus

end Bellman
