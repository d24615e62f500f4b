import Bellman.Scalar
import Bellman.Yaml.Node
import Bellman.Yaml.Token.Tag

/-!
# Values of scalars

The value that a scalar's text stands for under its tag. A text that a kind of value cannot be read
from is a fault that depends on the kind.
-/

namespace Bellman.Yaml

open Data

namespace Scalar

def ungapped (s : String) : List Char :=
  s.toList.filter (· ≠ '_')

def digit? (base : Nat) (c : Char) : Option Nat :=
  (Cursor.hexDigit? c).filter (· < base)

/-- The letter that marks a base, after a zero. -/
def mark? (base : Nat) : Option Char :=
  if base = 2 then some 'b' else if base = 8 then some 'o' else if base = 16 then some 'x' else none

/-- Digits in a base without the mark of the base, which may stand in front of them. -/
def unmarked (base : Nat) : List Char → List Char
  | '0' :: c :: ds => if mark? base = some c.toLower then ds else '0' :: c :: ds
  | ds => ds

/-- The whole number that a text writes in a base, with a sign and blanks around it. Digits may be
those of any script. -/
def whole (base : Nat) (cs : List Char) : Except Fault Int :=
  let body := (Text.trim Text.isNumberBlank cs).map Decimal.asciiDigit
  let ds := unmarked base (Tag.unsigned body)
  match ds.mapM (digit? base) with
  | some values =>
    if values.isEmpty || (base = 10 && Number.mostDigits < values.length) then
      .error .invalidScalar
    else
      let n : Nat := values.foldl (fun v d => base * v + d) 0
      .ok (if body.head? = some '-' then -(n : Int) else n)
  | none => .error .invalidScalar

/-- The sign in front of a number, and what follows it. -/
def signed : List Char → Bool × List Char
  | '-' :: cs => (true, cs)
  | '+' :: cs => (false, cs)
  | cs => (false, cs)

/-- The whole number of a text: binary, octal, decimal, hexadecimal or in base sixty. -/
def int (s : String) : Except Fault Int := do
  let (negative, cs) := signed (ungapped s)
  let n ← match cs with
    | [] => throw .characterMissing
    | ['0'] => pure 0
    | '0' :: 'b' :: ds => whole 2 ds
    | '0' :: 'x' :: ds => whole 16 ds
    | '0' :: _ => whole 8 cs
    | _ =>
      if cs.contains ':' then do
        let parts ← (cs.splitOn ':').mapM (whole 10)
        pure (parts.foldl (fun v d => 60 * v + d) 0)
      else whole 10 cs
  return if negative then -n else n

/-- The sum of doubles in base sixty, the last of which counts once. Every place is rounded before
it counts, and there may not be so many that one is too large. -/
def sexagesimal (parts : List Float) : Except Fault Float := do
  let places ← parts.reverse.zipIdx.mapM fun (part, i) =>
    match Decimal.ofInt? (Nat.pow 60 i : Nat) with
    | some place => .ok (part * place)
    | none => .error .scalarTooLarge
  return total places

/-- The double of a text: with a point, infinite, not a number, or in base sixty. -/
def float (s : String) : Except Fault Float := do
  let written := (ungapped s).map Char.toLower
  let (negative, cs) := signed written
  let read (part : List Char) : Except Fault Float :=
    match Decimal.readChars? part with
    | some x => .ok x
    | none => .error .invalidScalar
  let x ← if written.isEmpty then throw .characterMissing
    else if cs = ".inf".toList then pure (1.0 / 0.0)
    else if cs = ".nan".toList then pure (0.0 / 0.0)
    else if cs.contains ':' then do sexagesimal (← (cs.splitOn ':').mapM read)
    else read cs
  return if negative then -1.0 * x else x

def sextet? (c : Char) : Option Nat :=
  if 'A' ≤ c && c ≤ 'Z' then some (c.toNat - 'A'.toNat)
  else if 'a' ≤ c && c ≤ 'z' then some (c.toNat - 'a'.toNat + 26)
  else if c.isDigit then some (c.toNat - '0'.toNat + 52)
  else if c = '+' then some 62
  else if c = '/' then some 63
  else none

/-- The bytes that begin a group of sextets, as far as there are any. -/
def groupBytes : List Nat → List UInt8
  | a :: b :: rest =>
    UInt8.ofNat (a * 4 + b / 16) :: match rest with
      | [] => []
      | c :: rest => UInt8.ofNat (b * 16 + c / 4) :: match rest with
        | [] => []
        | d :: _ => [UInt8.ofNat (c * 64 + d)]
  | _ => []

/-- The bytes that sextets stand for, of which four make a group; `none` among them is padding.
Enough padding in a row ends the last group and all that follows; `held` is the group that has
begun. -/
def bytesOf (held : List Nat) (padding : Nat) : List (Option Nat) → Option (List UInt8)
  | [] => if held.isEmpty then some [] else none
  | none :: rest =>
    if held.length < 2 then bytesOf held padding rest
    else if 4 ≤ held.length + padding + 1 then some (groupBytes held)
    else bytesOf held (padding + 1) rest
  | some sextet :: rest =>
    let group := held ++ [sextet]
    if group.length = 4 then (groupBytes group ++ ·) <$> bytesOf [] 0 rest
    else bytesOf group 0 rest

/-- The bytes that a text in base sixty-four stands for; other characters do not count. -/
def binary (s : String) : Except Fault (List UInt8) :=
  let cs := s.toList
  if cs.any fun c => 128 ≤ c.toNat then .error .malformedDocument
  else
    let counted := cs.filter fun c => c = '=' || (sextet? c).isSome
    match bytesOf [] 0 (counted.map sextet?) with
    | some bytes => .ok bytes
    | none => .error .malformedDocument

def value (tag : Tag) (text : String) : Except Fault Value :=
  match tag with
  | .null => .ok .null
  | .text => .ok (.text text)
  | .int => Value.int <$> int text
  | .float => Value.float <$> float text
  | .binary => Value.bytes <$> binary text
  | .bool =>
    let small := String.ofList (text.toList.map Char.toLower)
    if Tag.isYes small then .ok (.bool true)
    else if Tag.isNo small then .ok (.bool false)
    else .error .unknownTruth
  | .timestamp =>
    match Timestamp.ofText? text.toList with
    | some t => t.toValue
    | none => .error .notATime
  | _ => .error .malformedDocument

end Scalar

end Bellman.Yaml
