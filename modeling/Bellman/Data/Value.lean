import Bellman.Data.Calendar
import Bellman.Data.Number
import Bellman.Text.Quoted
import Bellman.UpdateMode.Basic

/-!
# Plain values

Parameters, problem declarations and configuration documents are made of plain values: nothing,
numbers, texts, and the usual collections of values. A value has a literal, in which texts are
quoted, and a text, in which a text stands for itself. An update mode is a value of its own, which
is the text of its keyword wherever a text is looked into. A collection may contain itself; inside,
only a mark says so.
-/

namespace Bellman.Data

/-- A plain value. Mappings keep the order in which their keys were first given. -/
inductive Value where
  | null
  | num (n : Number)
  | text (s : String)
  | mode (m : UpdateMode)
  | bytes (bs : List UInt8)
  | date (d : Date)
  | moment (m : Moment)
  | list (items : List Value)
  | tuple (items : List Value)
  | set (items : List Value)
  | map (entries : List (Value × Value))
  /-- A list around this place, once more. -/
  | listAgain
  /-- A mapping around this place, once more. -/
  | mapAgain

namespace Value

instance : Inhabited Value := ⟨null⟩

abbrev bool (b : Bool) : Value := num (.truth b)
abbrev int (i : Int) : Value := num (.whole i)
abbrev float (x : Float) : Value := num (.real x)

def typeName : Value → String
  | null => "NoneType"
  | num n => n.typeName
  | text _ => "str"
  | mode _ => "UpdateMode"
  | bytes _ => "bytes"
  | date _ => "datetime.date"
  | moment _ => "datetime.datetime"
  | list _ => "list"
  | tuple _ => "tuple"
  | set _ => "set"
  | map _ => "dict"
  | listAgain => "list"
  | mapAgain => "dict"

/-- Whether a value counts as true: nothing, zero and what is empty do not. -/
def isTrue : Value → Bool
  | null => false
  | num n => n.isTrue
  | text s => !s.isEmpty
  | mode m => !m.keyword.isEmpty
  | bytes bs => !bs.isEmpty
  | date _ => true
  | moment _ => true
  | list items => !items.isEmpty
  | tuple items => !items.isEmpty
  | set items => !items.isEmpty
  | map entries => !entries.isEmpty
  | listAgain => true
  | mapAgain => true

mutual

/-- The literal of a value, in which texts are quoted. -/
def literal : Value → String
  | null => "None"
  | num n => n.text
  | text s => Text.quoted s
  | mode m => "<UpdateMode." ++ m.keyword ++ ": " ++ Text.quoted m.keyword ++ ">"
  | bytes bs => Text.quotedBytes bs
  | date d => d.literal
  | moment m => m.literal
  | list items => "[" ++ ", ".intercalate (literals items) ++ "]"
  | tuple items =>
    match literals items with
    | [one] => "(" ++ one ++ ",)"
    | several => "(" ++ ", ".intercalate several ++ ")"
  | set items =>
    if items.isEmpty then "set()" else "\x7b" ++ ", ".intercalate (literals items) ++ "\x7d"
  | map entries => "\x7b" ++ ", ".intercalate (entryLiterals entries) ++ "\x7d"
  | listAgain => "[...]"
  | mapAgain => "\x7b...\x7d"

def literals : List Value → List String
  | [] => []
  | v :: vs => v.literal :: literals vs

def entryLiterals : List (Value × Value) → List String
  | [] => []
  | (k, v) :: rest => (k.literal ++ ": " ++ v.literal) :: entryLiterals rest

end

/-- The text of a value: a text stands for itself, an update mode shows its name, dates are written
for reading, and everything else as its literal. -/
def display : Value → String
  | text s => s
  | mode m => "UpdateMode." ++ m.keyword
  | date d => d.text
  | moment m => m.text
  | v => v.literal

mutual

/-- Whether no number in a value is too long to be written. -/
def isWritable : Value → Bool
  | num n => n.isWritable
  | list items => areWritable items
  | tuple items => areWritable items
  | set items => areWritable items
  | map entries => areWritableEntries entries
  | _ => true

def areWritable : List Value → Bool
  | [] => true
  | v :: vs => v.isWritable && areWritable vs

def areWritableEntries : List (Value × Value) → Bool
  | [] => true
  | (k, v) :: rest => k.isWritable && v.isWritable && areWritableEntries rest

end

mutual

/-- Whether a value may be a key of a mapping: collections that can change may not. -/
def isKey : Value → Bool
  | list _ => false
  | set _ => false
  | map _ => false
  | listAgain => false
  | mapAgain => false
  | tuple items => areKeys items
  | _ => true

def areKeys : List Value → Bool
  | [] => true
  | v :: vs => v.isKey && areKeys vs

end

/-- The type that keeps a value from being a key. -/
def unkeyableType : Value → String
  | tuple items => ((items.find? (!·.isKey)).map typeName).getD "tuple"
  | v => v.typeName

mutual

/-- Equality of keys: numbers are equal by value, whatever their kinds, and an update mode is equal
to its keyword. -/
def sameKey : Value → Value → Bool
  | null, null => true
  | num a, num b => a.sameValue b
  | text a, text b => a == b
  | text a, mode b => a == b.keyword
  | mode a, text b => a.keyword == b
  | mode a, mode b => a == b
  | bytes a, bytes b => a == b
  | date a, date b => a == b
  | moment a, moment b => a == b
  | tuple as, tuple bs => sameKeys as bs
  | _, _ => false

def sameKeys : List Value → List Value → Bool
  | [], [] => true
  | a :: as, b :: bs => a.sameKey b && sameKeys as bs
  | _, _ => false

end

/-- Whether a value is the number `n`, in whatever kind. -/
def isCount (v : Value) (n : Nat) : Bool :=
  v.sameKey (int n)

/-- The entries with `key` bound to `value`: a key already present keeps its place and its own form.
-/
def insertEntry (key value : Value) : List (Value × Value) → List (Value × Value)
  | [] => [(key, value)]
  | (k, v) :: rest =>
    if k.sameKey key then (k, value) :: rest else (k, v) :: insertEntry key value rest

def lookup? (entries : List (Value × Value)) (name : String) : Option Value :=
  (entries.find? fun (k, _) => k.sameKey (text name)).map (·.2)

end Value

end Bellman.Data
