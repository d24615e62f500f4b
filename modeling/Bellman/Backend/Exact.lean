import Bellman.Backend.Basic
import Bellman.Decimal.Binary64
import Bellman.Lp.Simplex
import Bellman.Program.NormalForm

/-!
# The exact backend

Stage programs on doubles are solved in exact arithmetic: every finite double is a rational number,
the linear program is solved over these, and the result is rounded once. A bound whose absolute
value is `1e20` or more is no bound.
-/

namespace Bellman

open Data

namespace Exact

/-- The bound from which on a bound is none. -/
def unboundedFrom : Rat := (Decimal.tenTo 20 : Nat)

/-- A bound as an exact number; none if it is absent, not a number or too large. -/
def bound? (b : Option Float) : Option Rat :=
  (b.bind Decimal.toRat?).filter fun q => -unboundedFrom < q ∧ q < unboundedFrom

def range (lower upper : Option Float) : Lp.Range :=
  ⟨bound? lower, bound? upper⟩

/-- A coefficient as an exact number; anything that is not finite counts as zero. -/
def coefficient (x : Float) : Rat :=
  (Decimal.toRat? x).getD 0

/-- Multiples of some of the columns, one for each column. -/
def spread (columns : List Column) (terms : List (Column × Float)) : List Rat :=
  columns.map fun c => ((terms.lookup c).map coefficient).getD 0

def linearProgram (p : StageProgram Float) (boxes : List (Column × Box Float)) :
    Lp.LinearProgram :=
  let columns := boxes.map (·.1)
  { columns := boxes.map fun (_, b) => range b.lower b.upper
    constraints := p.normalRows.map fun r =>
      ⟨spread columns r.terms, range r.lower r.upper⟩
    objective := spread columns p.linearObjective.terms }

def report (q : Rat) : Option (Reported Float) :=
  some (.scalar (Decimal.ofRat q))

/-- The answer to a stage program; it fails if a bound is not usable. -/
def reply (p : StageProgram Float) : Reply Float :=
  match p.columns with
  | .error e => .failed e
  | .ok boxes =>
    match (linearProgram p boxes).solve with
    | .optimal point multipliers =>
      .ended .optimal (some "optimal") <| some {
        values := (boxes.map (·.1)).zip (point.map report)
        duals := (multipliers.take p.dimStates).map report }
    | .infeasible _ => .ended .infeasible (some "infeasible") none
    | .unbounded _ _ => .ended .unbounded (some "unbounded") none
    | .undecided => .ended .unknown (some "unknown") none

end Exact

end Bellman
