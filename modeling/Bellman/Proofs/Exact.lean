import Bellman.Backend.Basic
import Bellman.Decimal.Binary64
import Bellman.Problem.Formula
import Bellman.Session.Basic
import Mathlib.Algebra.Order.Field.Rat

/-!
# Exact scalars

In exact arithmetic the scalars are an ordered ring. Whole numbers among the plain values are read
as themselves, however large they are. The rational numbers are such scalars: every finite double is
one of them.

A small problem over the rational numbers serves to try general statements out.
-/

namespace Bellman

open Data

/-- Scalars among which a whole number is read as itself. -/
class Scalar.IsExact (S : Type) [Scalar S] [IntCast S] : Prop where
  read_whole : ∀ (n : Number) (i : Int), n.toInt? = some i → Scalar.read (.num n) = .ok (i : S)

/-- A number as a rational one; infinities and not-a-numbers are none. -/
def Data.Number.toExact (n : Number) : Except Fault ℚ :=
  match n.toInt? with
  | some i => .ok i
  | none => do
    match Decimal.toRat? (← n.toFloat) with
    | some q => .ok q
    | none => .error .unusableBound

instance : Scalar ℚ where
  read
    | .num n => n.toExact
    | v => do Number.toExact (.real (← v.toFloat))
  write q := .float (Decimal.ofRat q)

instance : Scalar.IsExact ℚ where
  read_whole n i h := by
    change n.toExact = .ok (i : ℚ)
    simp only [Number.toExact, h]

namespace Stock

/-- The numbers of variables of a stage in which a stock meets a demand. -/
def shape : Shape := ⟨1, 1⟩

/-- What is left of a stock and an order when the demand has been met. -/
def leftOver : Formula :=
  [⟨.int 1, [.state 0]⟩, ⟨.int 1, [.control 0]⟩, ⟨.int (-1), [.noise 0]⟩]

/-- How far a stock and an order are beyond what can be stored. -/
def surplus : Formula :=
  [⟨.int 1, [.state 0]⟩, ⟨.int 1, [.control 0]⟩, ⟨.int (-8), []⟩]

/-- The price of an order. -/
def price : Formula :=
  [⟨.int 2, [.control 0]⟩]

/-- The demand that an order does not meet. -/
def shortage : Formula :=
  [⟨.int 1, [.noise 0]⟩, ⟨.int (-1), [.control 0]⟩]

/-- A stock of at most ten, to which at most five can be ordered, against a demand of one or three.
-/
def problem (model : CostModel) : Problem ℚ where
  states := .whole 1
  controls := .whole 1
  noises := .whole 1
  stateBounds := [⟨.int 0, .int 10⟩]
  controlBounds := [⟨.int 0, .int 5⟩]
  dynamics := (RowPlan.rows [leftOver]).toRows shape
  equalities _ _ := .ok []
  inequalities := (RowPlan.rows [surplus]).toRows shape
  cost :=
    match model with
    | .linear => .single (price.cost shape)
    | .piecewiseLinear => .several [price.cost shape, shortage.cost shape]
  costModel := .text model.keyword
  laws := some [⟨[[1], [3]], [.whole 1, .whole 1]⟩]

/-- The problem as it is declared. -/
def declaration (model : CostModel) : Declaration ℚ where
  states := .int 1
  controls := .int 1
  noises := .int 1
  stateBounds := .list [.list [.int 0, .int 10]]
  controlBounds := .list [.list [.int 0, .int 5]]
  dynamics := (problem model).dynamics
  inequalities := (problem model).inequalities
  cost := (problem model).cost
  costModel := (problem model).costModel
  laws := (problem model).laws

theorem check_declaration (model : CostModel) : (declaration model).check = .ok (problem model) :=
  rfl

/-- Parameters in whole numbers. -/
def params (mode : UpdateMode) : Parameters where
  solver := .text "exact"
  executable := .null
  options := .map []
  timeLimit := none
  verbose := .bool false
  updateMode := mode
  infinity := .whole (10 ^ 20)
  alphaLowerBound := .int 0
  noiseTolerance := .whole 0
  cutVariable := .nextState
  logLevel := .text "INFO"

/-- The cost of what is left over, as far as it is known: five minus the stock. -/
def future : ValueFunction ℚ :=
  ⟨.int 1, [⟨[-1], 5⟩]⟩

end Stock

end Bellman
