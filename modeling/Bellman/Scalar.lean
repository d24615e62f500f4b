import Bellman.Data.Reading

/-!
# Scalars

States, controls, noises and cuts are vectors of scalars. The rules of the library are stated for
any kind of scalar with the arithmetic they use, so that they can be run on doubles and reasoned
about in exact arithmetic. A kind of scalar says how a plain value is read as one and how one is
written back.
-/

namespace Bellman

open Data

/-- A kind of scalar, with its form among the plain values. -/
class Scalar (S : Type) where
  read : Value → Except Fault S
  write : S → Value

instance : Scalar Float where
  read := Value.toFloat
  write := Value.float

namespace Scalar

variable {S : Type} [Scalar S]

/-- The vector a value stands for, refused unless it has `dim` coordinates. -/
def readVector (what : String) (dim v : Value) : Except Fault (List S) := do
  let xs ← (← v.items).mapM read
  if dim.isCount xs.length then .ok xs else .error (.dimension what dim (.int xs.length))

def writeVector (xs : List S) : Value :=
  .tuple (xs.map write)

end Scalar

section Order

variable {S : Type} [Zero S] [LE S] [DecidableLE S]

/-- Whether a scalar is zero, of either sign. -/
def isZero (a : S) : Bool :=
  a ≤ 0 && 0 ≤ a

def isOne [One S] (a : S) : Bool :=
  a ≤ 1 && 1 ≤ a

variable [Sub S]

/-- Whether a scalar is at no distance from itself, as infinities and not-a-numbers are not. -/
def isFinite (a : S) : Bool :=
  a - a ≤ 0

/-- Whether a scalar is an infinity: it is at some distance from itself and yet compares with
itself, as not-a-numbers do not. -/
def isInfinite (a : S) : Bool :=
  a ≤ a && !isFinite a

end Order

section Arithmetic

variable {S : Type} [Zero S] [Add S]

/-- The sum of a list, added up from the left. -/
def total (xs : List S) : S :=
  xs.foldl (· + ·) 0

@[simp] theorem total_nil : total ([] : List S) = 0 := rfl

variable [Mul S]

/-- The sum of the products of coordinates that both lists have. -/
def dot (xs ys : List S) : S :=
  total (List.zipWith (· * ·) xs ys)

@[simp] theorem dot_nil (ys : List S) : dot [] ys = 0 := rfl

end Arithmetic

end Bellman
