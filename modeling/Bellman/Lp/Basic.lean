/-!
# Linear programs and their verdicts

A linear program keeps columns and rows, which are sums of multiples of columns, within ranges and
asks for the least value of a sum of multiples of columns. All numbers are exact.

A verdict carries its own evidence: an optimum comes with multipliers of the rows, infeasibility
with multipliers that contradict the ranges, and unboundedness with a direction.
`LinearProgram.confirms` checks the evidence by arithmetic alone, so that nothing has to be believed
about how it was found.
-/

namespace Bellman.Lp

def sum (qs : List Rat) : Rat :=
  qs.foldl (· + ·) 0

def inner (ps qs : List Rat) : Rat :=
  sum (List.zipWith (· * ·) ps qs)

/-- A closed range, open where a bound is absent. -/
structure Range where
  lower : Option Rat
  upper : Option Rat
  deriving DecidableEq, Repr

namespace Range

def contains (r : Range) (q : Rat) : Bool :=
  (r.lower.all (· ≤ q)) && (r.upper.all (q ≤ ·))

/-- Whether there is a number in a range. -/
def isProper (r : Range) : Bool :=
  match r.lower, r.upper with
  | some l, some u => l ≤ u
  | _, _ => true

/-- Whether moving by a multiple of a direction stays in a range however far one goes. -/
def recedes (r : Range) (d : Rat) : Bool :=
  (d ≤ 0 || r.upper.isNone) && (0 ≤ d || r.lower.isNone)

/-- Whether a rate of change of the objective cannot be used at a number: it is zero, or the number
is at the end of the range that the rate points away from. -/
def blocks (r : Range) (q rate : Rat) : Bool :=
  if 0 < rate then r.lower = some q
  else if rate < 0 then r.upper = some q
  else true

/-- The largest value of a multiple of a number in a range, if it has one. -/
def largest? (r : Range) (multiple : Rat) : Option Rat :=
  if 0 < multiple then r.upper.map (multiple * ·)
  else if multiple < 0 then r.lower.map (multiple * ·)
  else some 0

end Range

/-- A constraint that keeps a sum of multiples of columns in a range. -/
structure Constraint where
  coefficients : List Rat
  range : Range
  deriving DecidableEq, Repr

/-- A linear program in which the objective is to be made least. -/
structure LinearProgram where
  columns : List Range
  constraints : List Constraint
  objective : List Rat
  deriving DecidableEq, Repr

/-- What a search for the least objective comes to, with its evidence. -/
inductive Verdict where
  /-- A point is optimal; each multiplier is the rate at which the optimum changes with its row. -/
  | optimal (point multipliers : List Rat)
  /-- The combination of rows with these multipliers contradicts the ranges. -/
  | infeasible (multipliers : List Rat)
  /-- From a feasible point the objective falls without end along a direction. -/
  | unbounded (point direction : List Rat)
  /-- The search gave up. -/
  | undecided
  deriving DecidableEq, Repr

namespace LinearProgram

/-- The sum of the multiples of the rows, column by column. -/
def combine (lp : LinearProgram) (multipliers : List Rat) : List Rat :=
  (lp.constraints.zip multipliers).foldl
    (fun sum (c, y) => List.zipWith (fun s a => s + y * a) sum c.coefficients)
    (List.replicate lp.columns.length 0)

/-- Whether a point is in all ranges. -/
def isFeasible (lp : LinearProgram) (point : List Rat) : Bool :=
  point.length = lp.columns.length &&
    ((lp.columns.zip point).all fun (r, q) => r.contains q) &&
    lp.constraints.all fun c => c.range.contains (inner c.coefficients point)

/-- The rates at which the objective changes with each column once the rows have their multipliers.
-/
def reducedCosts (lp : LinearProgram) (multipliers : List Rat) : List Rat :=
  List.zipWith (· - ·) lp.objective (lp.combine multipliers)

/-- Whether no move from a point can lower the objective, by the multipliers of the rows. -/
def isOptimal (lp : LinearProgram) (point multipliers : List Rat) : Bool :=
  lp.isFeasible point && multipliers.length = lp.constraints.length &&
    ((lp.constraints.zip multipliers).all fun (c, y) =>
      c.range.blocks (inner c.coefficients point) y) &&
    ((lp.columns.zip (point.zip (lp.reducedCosts multipliers))).all fun (r, q, rate) =>
      r.blocks q rate)

/-- Whether a combination of rows, less what it says about the columns, would have to be negative
although it is zero. -/
def isContradiction (lp : LinearProgram) (multipliers : List Rat) : Bool :=
  let rows := (lp.constraints.zip multipliers).mapM fun (c, y) => c.range.largest? y
  let columns := (lp.columns.zip (lp.combine multipliers)).mapM fun (r, s) => r.largest? (-s)
  multipliers.length = lp.constraints.length &&
    match rows, columns with
    | some a, some b => sum a + sum b < 0
    | _, _ => false

/-- Whether the objective falls without end from a point along a direction. -/
def isRay (lp : LinearProgram) (point direction : List Rat) : Bool :=
  lp.isFeasible point && direction.length = lp.columns.length &&
    ((lp.columns.zip direction).all fun (r, d) => r.recedes d) &&
    (lp.constraints.all fun c => c.range.recedes (inner c.coefficients direction)) &&
    inner lp.objective direction < 0

/-- Whether the evidence of a verdict holds. -/
def confirms (lp : LinearProgram) : Verdict → Bool
  | .optimal point multipliers => lp.isOptimal point multipliers
  | .infeasible multipliers => lp.isContradiction multipliers
  | .unbounded point direction => lp.isRay point direction
  | .undecided => true

end LinearProgram

end Bellman.Lp
