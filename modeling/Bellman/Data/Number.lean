import Bellman.Decimal.Layout

/-!
# Numbers as they were given

A number is kept in the kind in which it was given, a truth value, a whole number or a double,
because it is echoed and printed in that kind. Truth values count as zero and one. Comparisons are
exact across kinds.
-/

namespace Bellman.Data

/-- A number in the kind in which it was given. -/
inductive Number where
  | truth (b : Bool)
  | whole (i : Int)
  | real (x : Float)

namespace Number

/-- The whole number behind a truth value or a whole number. -/
def toInt? : Number → Option Int
  | truth b => some (if b then 1 else 0)
  | whole i => some i
  | real _ => none

/-- The closest double, unless a whole number is too large to have a finite one. -/
def toFloat? : Number → Option Float
  | truth b => some (if b then 1 else 0)
  | whole i => Decimal.ofInt? i
  | real x => some x

def isPositive : Number → Bool
  | truth b => b
  | whole i => 0 < i
  | real x => 0 < x

def isNegative : Number → Bool
  | truth _ => false
  | whole i => i < 0
  | real x => x < 0

/-- Whether a number is below one, which is false of a not-a-number. -/
def isBelowOne : Number → Bool
  | truth b => !b
  | whole i => i < 1
  | real x => x < 1

/-- Whether a number is at most zero, which is false of a not-a-number. -/
def isNonpositive : Number → Bool
  | truth b => !b
  | whole i => i ≤ 0
  | real x => x ≤ 0

/-- Whether a number counts as true; not-a-number does. -/
def isTrue : Number → Bool
  | truth b => b
  | whole i => i ≠ 0
  | real x => !(x == 0)

/-- Equality of the values, whatever their kinds. -/
def sameValue (a b : Number) : Bool :=
  match a.toInt?, b.toInt?, a, b with
  | some i, some j, _, _ => i = j
  | none, none, real x, real y => x == y
  | some i, none, _, real y => Decimal.toRat? y == some (i : Rat)
  | none, some j, real x, _ => Decimal.toRat? x == some (j : Rat)
  | _, _, _, _ => false

/-- Whether a number is in the range of the indices of `n` things, which a fraction may be, too. -/
def isInRange (a : Number) (n : Nat) : Bool :=
  match a.toInt?, a with
  | some i, _ => 0 ≤ i && i < n
  | none, real x => (Decimal.toRat? x).any fun q => 0 ≤ q && q < (n : Rat)
  | none, _ => false

/-- The sum of two numbers, whole as long as both are; `none` if a whole number is too large to be
added to a double. -/
def add? (a b : Number) : Option Number :=
  match a.toInt?, b.toInt? with
  | some i, some j => some (whole (i + j))
  | _, _ => do return real ((← a.toFloat?) + (← b.toFloat?))

/-- The written form of a number in its own kind. -/
def text : Number → String
  | truth true => "True"
  | truth false => "False"
  | whole i => toString i
  | real x => Decimal.text x

/-- How many decimal digits a whole number may have to be written or read. -/
def mostDigits : Nat := 4300

/-- Whether a number is not too long to be written. -/
def isWritable : Number → Bool
  | whole i => i.natAbs < Decimal.tenTo mostDigits
  | _ => true

def typeName : Number → String
  | truth _ => "bool"
  | whole _ => "int"
  | real _ => "float"

end Number

end Bellman.Data
