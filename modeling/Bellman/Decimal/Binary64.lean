/-!
# Doubles as exact ratios

A finite double is a whole significand times a power of two. `Parts.ofFloat?` reads these parts off
its bits, and `nearest` goes back: it rounds an arbitrary ratio of naturals to the closest double,
a tie going to the even significand. All arithmetic between the two is on `Nat` and `Int`, so no
rounding happens anywhere else.
-/

namespace Bellman.Decimal

abbrev twoTo (n : Nat) : Nat := Nat.pow 2 n

abbrev tenTo (n : Nat) : Nat := Nat.pow 10 n

/-- The quotient `num / den` rounded to the nearest whole number, a half going to the even
neighbour. -/
def roundHalfEven (num den : Nat) : Nat :=
  let q := num / den
  let r := num % den
  if 2 * r < den then q
  else if den < 2 * r then q + 1
  else if q % 2 = 0 then q else q + 1

/-- The magnitude `significand * 2 ^ exponent` of a finite double, with its sign. -/
structure Parts where
  negative : Bool
  significand : Nat
  exponent : Int
  deriving DecidableEq, Repr

namespace Parts

/-- The parts of a finite double; infinities and not-a-numbers have none. -/
def ofFloat? (x : Float) : Option Parts :=
  let bits : Nat := x.toBits.toNat
  let fraction : Nat := bits % twoTo 52
  let biased : Nat := bits / twoTo 52 % twoTo 11
  if biased = 2047 then none
  else if biased = 0 then some ⟨bits / twoTo 63 = 1, fraction, -1074⟩
  else some ⟨bits / twoTo 63 = 1, twoTo 52 + fraction, (biased : Int) - 1075⟩

/-- The magnitude as a ratio of naturals. -/
def ratio (p : Parts) : Nat × Nat :=
  if p.exponent < 0 then (p.significand, twoTo p.exponent.natAbs)
  else (p.significand * twoTo p.exponent.natAbs, 1)

def toRat (p : Parts) : Rat :=
  let (num, den) := p.ratio
  let q := (num : Rat) / (den : Rat)
  if p.negative then -q else q

end Parts

def toRat? (x : Float) : Option Rat :=
  (Parts.ofFloat? x).map Parts.toRat

/-- The double with the given sign closest to `num / den`; beyond the largest finite double it is
an infinity. -/
def nearest (negative : Bool) (num den : Nat) : Float :=
  let magnitude : Nat :=
    if num = 0 then 0
    else
      let guess : Int := (num.log2 : Int) - den.log2 - 52
      let scaled (e : Int) : Nat × Nat :=
        if e < 0 then (num * twoTo e.natAbs, den) else (num, den * twoTo e.natAbs)
      let low := scaled guess
      let fit := if low.1 / low.2 < twoTo 52 then guess - 1 else guess
      let e := max fit (-1074)
      let (n, d) := scaled e
      let m := roundHalfEven n d
      if m < twoTo 52 then m
      else min ((e + 1074).toNat * twoTo 52 + m) (2047 * twoTo 52)
  Float.ofBits (UInt64.ofNat ((if negative then twoTo 63 else 0) + magnitude))

def ofRat (q : Rat) : Float :=
  nearest (q.num < 0) q.num.natAbs q.den

/-- The double closest to a whole number, unless the number is too large for a finite one. -/
def ofInt? (i : Int) : Option Float :=
  let x := nearest (i < 0) i.natAbs 1
  if x.isFinite then some x else none

/-- A double rounded to `places` decimals, a half going to the even neighbour; infinities and
not-a-numbers are kept. -/
def toPlaces (places : Nat) (x : Float) : Float :=
  match Parts.ofFloat? x with
  | none => x
  | some p =>
    let (num, den) := p.ratio
    nearest p.negative (roundHalfEven (num * tenTo places) den) (tenTo places)

end Bellman.Decimal
