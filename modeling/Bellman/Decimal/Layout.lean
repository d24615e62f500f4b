import Bellman.Decimal.Shortest

/-!
# The written form of a number

A `Layout` says where positional notation ends and how an exponent is written. `plain` is the layout
of every number that this library writes.
-/

namespace Bellman.Decimal

/-- How the digits of a number are laid out. -/
structure Layout where
  /-- The least exponent of the leading digit that is written positionally. -/
  positionalFrom : Int
  /-- The first exponent of the leading digit that is not written positionally any more. -/
  positionalUpTo : Int
  /-- The least number of digits of a written exponent. -/
  exponentWidth : Nat

/-- Numbers from `0.0001` up to below `10 ^ 16` are positional and always show a point; other
exponents have a sign and at least two digits. -/
def plain : Layout := ⟨-4, 16, 2⟩

/-- Significant digits and the exponent of the leading one, without trailing zeros. -/
def Numeral.normalize (d : Numeral) : List Char × Int :=
  let cs := Nat.toDigits 10 d.digits
  let significant := (cs.reverse.dropWhile (· == '0')).reverse
  (if significant.isEmpty then ['0'] else significant, d.exponent + (cs.length - 1 : Nat))

namespace Layout

def writeExponent (l : Layout) (e : Int) : List Char :=
  let ds := Nat.toDigits 10 e.natAbs
  'e' :: (if e < 0 then '-' else '+') :: List.replicate (l.exponentWidth - ds.length) '0' ++ ds

/-- The digits of a numeral with a point among them or an exponent behind them. -/
def writeNumeral (l : Layout) (d : Numeral) : List Char :=
  let (ds, e) := d.normalize
  if d.digits = 0 then ['0', '.', '0']
  else if l.positionalFrom ≤ e ∧ e < l.positionalUpTo then
    if e < 0 then '0' :: '.' :: List.replicate (e.natAbs - 1) '0' ++ ds
    else
      let whole := ds.take (e.toNat + 1)
      let fraction := ds.drop (e.toNat + 1)
      whole ++ List.replicate (e.toNat + 1 - whole.length) '0' ++
        '.' :: (if fraction.isEmpty then ['0'] else fraction)
  else
    match ds with
    | [] => l.writeExponent e
    | [c] => c :: l.writeExponent e
    | c :: cs => c :: '.' :: cs ++ l.writeExponent e

def write (l : Layout) (x : Float) : String :=
  match Parts.ofFloat? x with
  | none => if x.isNaN then "nan" else if x < 0 then "-inf" else "inf"
  | some p => String.ofList ((if p.negative then ['-'] else []) ++ l.writeNumeral (shortest p))

end Layout

/-- The written form of a double in the library's own layout. -/
def text (x : Float) : String := plain.write x

end Bellman.Decimal
