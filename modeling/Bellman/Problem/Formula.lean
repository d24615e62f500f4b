import Bellman.Data.Index
import Bellman.Problem

/-!
# Rows given as data

The rows and costs of a stage can be written down as data instead of as functions: a formula is a
sum of products, and a plan of rows may differ by stage or, where the noise is known, by its value.
-/

namespace Bellman

open Data

/-- What a coefficient can be multiplied by. Positions count from the end if they are negative. -/
inductive Factor where
  | state (position : Int)
  | control (position : Int)
  | noise (position : Int)
  /-- The number of the stage. -/
  | stage
  deriving DecidableEq, Repr

/-- A product of a coefficient and factors. -/
structure Product where
  coefficient : Value
  factors : List Factor

/-- A sum of products. -/
abbrev Formula := List Product

/-- The numbers of variables a formula may refer to. -/
structure Shape where
  states : Nat
  controls : Nat
  deriving DecidableEq, Repr

namespace Term

variable {S : Type} [Mul S]

def timesNumber (r : S) : Term S → Term S
  | weight x => weight (x.timesNumber r)
  | multiple m => multiple (m.timesNumber r)

def timesCoordinate (k : Nat) : Term S → Term S
  | weight x => weight (x.timesCoordinate k)
  | multiple m => multiple (m.timesCoordinate k)

/-- A term multiplied by a decision variable, of which it may have only one. -/
def timesColumn (c : Column) : Term S → Except Fault (Term S)
  | weight x => .ok (multiple (x.timesColumn c))
  | multiple _ => .error .notAffine

end Term

variable {S : Type} [Scalar S] [Mul S]

def Factor.times (shape : Shape) (stage : Int) (view : NoiseView S) (t : Term S) :
    Factor → Except Fault (Term S)
  | state position =>
    match place? shape.states position with
    | some i => t.timesColumn (.state i)
    | none => .error .indexOutOfRange
  | control position =>
    match place? shape.controls position with
    | some j => t.timesColumn (.control j)
    | none => .error .indexOutOfRange
  | noise position =>
    match view with
    | .variables count =>
      match place? count position with
      | some k => .ok (t.timesCoordinate k)
      | none => .error .indexOutOfRange
    | .values w =>
      match elementAt? w position with
      | some s => .ok (t.timesNumber s)
      | none => .error .indexOutOfRange
  | Factor.stage => do
    return t.timesNumber (← Scalar.read (.int stage))

def Product.term (shape : Shape) (stage : Int) (view : NoiseView S) (p : Product) :
    Except Fault (Term S) := do
  let start := Term.constant (← Scalar.read p.coefficient)
  p.factors.foldlM (fun t f => f.times shape stage view t) start

def Formula.cost (shape : Shape) (f : Formula) : StageCost S := fun stage view =>
  f.mapM (Product.term shape stage view)

/-- Rows given by formulas. -/
inductive RowPlan where
  | rows (formulas : List Formula)
  /-- One plan for each stage, repeated from the first when there are no more. -/
  | byStage (plans : List RowPlan)
  /-- Only the first rows if the noise is known and a coordinate of it is below a threshold. -/
  | shortened (formulas : List Formula) (position : Int) (threshold : Value) (count : Nat)

namespace RowPlan

instance : Inhabited RowPlan := ⟨rows []⟩

variable [LT S] [DecidableLT S]

/-- Whether a coordinate of the noise is known to be below a threshold. -/
def isBelow (view : NoiseView S) (position : Int) (threshold : Value) : Except Fault Bool :=
  match view with
  | .variables _ => .ok false
  | .values w => do
    let limit : S ← Scalar.read threshold
    match elementAt? w position with
    | some s => return decide (s < limit)
    | none => throw .indexOutOfRange

mutual

/-- A plan as a function of stage and noise. -/
def toRows (shape : Shape) : RowPlan → StageRows S
  | rows formulas => fun stage view => formulas.mapM fun f => f.cost shape stage view
  | byStage plans => fun stage view =>
    choose shape plans (stage.emod plans.length).toNat stage view
  | shortened formulas position threshold count => fun stage view => do
    let exprs ← formulas.mapM fun f => f.cost shape stage view
    return if ← isBelow view position threshold then exprs.take count else exprs

/-- The rows of the plan at a place of a list; none beyond its end. -/
def choose (shape : Shape) : List RowPlan → Nat → StageRows S
  | [], _ => fun _ _ => .ok []
  | plan :: _, 0 => plan.toRows shape
  | _ :: plans, i + 1 => choose shape plans i

end

end RowPlan

end Bellman
