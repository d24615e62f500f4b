import Bellman.Decimal.Binary64
import Bellman.Text.Blank
import Bellman.Text.Digit

/-!
# Reading a number

A written number is a sign, digits with at most one point, and an exponent; or a name of infinity or
of not-a-number. A single underscore may stand between two digits, digits may be those of any
script, and blanks may surround the whole. The value is rounded once, to the nearest double.
-/

namespace Bellman.Decimal

/-- The digits at the head of a list, with single underscores between two digits dropped, and the
rest. `inside` tells whether a digit stands directly before the list. -/
def digitRun (inside : Bool) : List Char → List Char × List Char
  | [] => ([], [])
  | c :: cs =>
    if c.isDigit then
      let (run, rest) := digitRun true cs
      (c :: run, rest)
    else if inside && c = '_' then
      match cs with
      | [] => ([], [c])
      | d :: ds =>
        if d.isDigit then
          let (run, rest) := digitRun true ds
          (d :: run, rest)
        else ([], c :: d :: ds)
    else ([], c :: cs)

def natOfDigits (ds : List Char) : Nat :=
  ds.foldl (fun n d => 10 * n + (d.toNat - 48)) 0

/-- The double closest to `digits * 10 ^ exponent`; exponents beyond the range of doubles are
settled without computing the power. -/
def scaled (negative : Bool) (digits : Nat) (exponent : Int) : Float :=
  let leading : Int := (Nat.toDigits 10 digits).length + exponent
  if digits = 0 || leading < -400 then nearest negative 0 1
  else if 400 < leading then nearest negative (twoTo 1024) 1
  else if exponent < 0 then nearest negative digits (tenTo exponent.natAbs)
  else nearest negative (digits * tenTo exponent.natAbs) 1

/-- A sign at the head of a list, true for minus, and the rest. -/
def takeSign : List Char → Bool × List Char
  | '-' :: cs => (true, cs)
  | '+' :: cs => (false, cs)
  | cs => (false, cs)

/-- The exponent at the end of a number, zero if there is none. -/
def readExponent? : List Char → Option Int
  | [] => some 0
  | c :: cs =>
    if c = 'e' || c = 'E' then
      let (negative, cs) := takeSign cs
      match digitRun false cs with
      | ([], _) => none
      | (ds, []) => some (if negative then -(natOfDigits ds : Int) else natOfDigits ds)
      | (_, _ :: _) => none
    else none

/-- The magnitude of a number without sign, as digits and an exponent. -/
def readMagnitude? (cs : List Char) : Option (Nat × Int) :=
  let (whole, rest) := digitRun false cs
  let (fraction, rest) :=
    match rest with
    | '.' :: rest => digitRun false rest
    | rest => ([], rest)
  if whole.isEmpty && fraction.isEmpty then none
  else (readExponent? rest).map fun e => (natOfDigits (whole ++ fraction), e - fraction.length)

/-- Characters outside ASCII as far as they have a meaning in a number: digits of other scripts. -/
def asciiDigit (c : Char) : Char :=
  if c.toNat < 128 then c
  else match Text.digitValue? c with
    | some n => Char.ofNat (48 + n)
    | none => c

def readChars? (cs : List Char) : Option Float :=
  let cs := (Text.trim Text.isNumberBlank cs).map asciiDigit
  let (negative, magnitude) := takeSign cs
  let name := String.ofList (magnitude.map Char.toLower)
  if name = "inf" || name = "infinity" then some (nearest negative (twoTo 1024) 1)
  else if name = "nan" then some (0.0 / 0.0)
  else (readMagnitude? magnitude).map fun (digits, e) => scaled negative digits e

def read? (s : String) : Option Float := readChars? s.toList

end Bellman.Decimal
