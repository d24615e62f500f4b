import Bellman.Decimal.Binary64

/-!
# The shortest decimal that reads back

Among the decimals that round to a given double, `shortest` picks one with the fewest digits, and of
those the closest to the double's exact value. A double's value lies between two neighbours on the
grid of decimals with `n` digits, so it is enough to test these two for `n = 1, 2, …, 17`.
-/

namespace Bellman.Decimal

/-- The number `digits * 10 ^ exponent`. -/
structure Numeral where
  digits : Nat
  exponent : Int
  deriving DecidableEq, Repr

def digitCount (n : Nat) : Nat := (Nat.toDigits 10 n).length

/-- The exponent of the leading decimal digit of `num / den`. -/
def leadingExponent (num den : Nat) : Int :=
  if den ≤ num then (digitCount (num / den) : Int) - 1
  else
    let n := digitCount (den / num)
    if den ≤ num * tenTo (n - 1) then -(n - 1 : Nat) else -(n : Nat)

/-- The open or closed interval of reals that round to a double with these parts, as a lower end and
an upper end over one denominator. Ends belong to it exactly when the significand is even. -/
def roundingInterval (p : Parts) : Nat × Nat × Nat :=
  let below := if p.significand = twoTo 52 ∧ -1074 < p.exponent then 1 else 2
  let unit : Nat × Nat :=
    if p.exponent < 0 then (1, twoTo p.exponent.natAbs) else (twoTo p.exponent.natAbs, 1)
  ((4 * p.significand - below) * unit.1, (4 * p.significand + 2) * unit.1, 4 * unit.2)

/-- Whether `digits * 10 ^ exponent` rounds to the double with these parts. -/
def Numeral.readsAs (p : Parts) (d : Numeral) : Bool :=
  let (low, high, den) := roundingInterval p
  let (num, scale) :=
    if d.exponent < 0 then (d.digits * den, tenTo d.exponent.natAbs)
    else (d.digits * tenTo d.exponent.natAbs * den, 1)
  if p.significand % 2 = 0 then low * scale ≤ num && num ≤ high * scale
  else low * scale < num && num < high * scale

/-- The better of the two neighbours with `n` digits, if one of them reads back. -/
def shortestWith? (p : Parts) (n : Nat) : Option Numeral :=
  let (num, den) := p.ratio
  let exponent := leadingExponent num den - (n - 1 : Nat)
  let (num, den) :=
    if exponent < 0 then (num * tenTo exponent.natAbs, den) else (num, den * tenTo exponent.natAbs)
  let low : Numeral := ⟨num / den, exponent⟩
  let high : Numeral := ⟨num / den + 1, exponent⟩
  match low.readsAs p, high.readsAs p with
  | true, true => some ⟨roundHalfEven num den, exponent⟩
  | true, false => some low
  | false, true => some high
  | false, false => none

/-- The shortest numeral that reads back as the double with these parts. -/
def shortest (p : Parts) : Numeral :=
  if p.significand = 0 then ⟨0, 0⟩
  else ((List.range' 1 17).findSome? (shortestWith? p)).getD ⟨p.significand, 0⟩

end Bellman.Decimal
