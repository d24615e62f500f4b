import Bellman.Decimal.Reading
import Bellman.Fault

/-!
# Reading plain values

How a plain value is taken as a double, as a number to compare, as a text, as a sequence, as a
vector of doubles or as a mapping, and the fault when it cannot be.
-/

namespace Bellman.Data

namespace Number

/-- The closest double, or the fault of a whole number that is too large. -/
def toFloat (n : Number) : Except Fault Float :=
  match n.toFloat? with
  | some x => .ok x
  | none => .error .tooLarge

/-- How many things a number counts; one with a fraction part counts nothing, even if it is zero. -/
def toCount (n : Number) : Except Fault Nat :=
  match n.toInt? with
  | some i => .ok i.toNat
  | none => .error (.notACount n.typeName)

/-- The index that a number is; one with a fraction part is none, even if it is zero. -/
def toIndex (n : Number) : Except Fault Int :=
  match n.toInt? with
  | some i => .ok i
  | none => .error (.notAnIndex n.typeName)

/-- A fault that shows a number, unless the number is too long to be written. -/
def shownIn (n : Number) (e : Fault) : Fault :=
  if n.isWritable then e else .tooLong

end Number

namespace Value

/-- A value taken as a double: numbers, and texts that write one. -/
def toFloat : Value → Except Fault Float
  | num n => n.toFloat
  | text s =>
    match Decimal.read? s with
    | some x => .ok x
    | none => .error (.notANumber (Text.quoted s))
  | mode m => .error (.notANumber (mode m).literal)
  | bytes bs =>
    let ascii := bs.all (· < 128)
    match Decimal.readChars? (bs.map fun b => Char.ofNat b.toNat) with
    | some x => if ascii then .ok x else .error (.notANumber (Text.quotedBytes bs))
    | none => .error (.notANumber (Text.quotedBytes bs))
  | v => .error (.notNumeric v.typeName)

/-- The number behind a value that is about to be compared by `relation` with a whole number. -/
def compared (relation : String) : Value → Except Fault Number
  | num n => .ok n
  | v => .error (.unordered relation v.typeName "int")

/-- The number behind a value that is about to take part in arithmetic. -/
def toReal : Value → Except Fault Number
  | num n => .ok n
  | v => .error (.notReal v.typeName)

/-- The text of a value, unless a number in it is too long to be written. -/
def toText (v : Value) : Except Fault String :=
  if v.isWritable then .ok v.display else .error .tooLong

/-- The elements of a value: the items of a collection, the keys of a mapping, the characters of a
text. -/
def items : Value → Except Fault (List Value)
  | list vs => .ok vs
  | tuple vs => .ok vs
  | set vs => .ok vs
  | map entries => .ok (entries.map (·.1))
  | text s => .ok (s.toList.map fun c => text c.toString)
  | mode m => .ok (m.keyword.toList.map fun c => text c.toString)
  | bytes bs => .ok (bs.map fun b => int b.toNat)
  | v => .error (.notIterable v.typeName)

/-- The doubles among the elements of a value, all of which have to be numeric. -/
def toFloats (v : Value) : Except Fault (List Float) := do
  (← v.items).mapM toFloat

/-- The entries of the mapping that a sequence of pairs describes. -/
def entriesOfPairs (index : Nat) (entries : List (Value × Value)) :
    List Value → Except Fault (List (Value × Value))
  | [] => .ok entries
  | v :: vs =>
    match v.items with
    | .error _ => .error (.notAPair index)
    | .ok [key, value] =>
      if key.isKey then entriesOfPairs (index + 1) (insertEntry key value entries) vs
      else .error (.unhashable key.unkeyableType)
    | .ok other => .error (.pairLength index other.length)

/-- The entries of a value taken as a mapping: none if the value counts as false, its own if it is a
mapping, else those of the pairs it consists of. -/
def toEntries (v : Value) : Except Fault (List (Value × Value)) :=
  if !v.isTrue then .ok []
  else match v with
    | map entries => .ok entries
    | v => do entriesOfPairs 0 [] (← v.items)

end Value

end Bellman.Data
