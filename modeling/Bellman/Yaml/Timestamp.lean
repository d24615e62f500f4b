import Bellman.Data.Calendar
import Bellman.Yaml.Tag

/-!
# Timestamps

A timestamp is a date, or a date with a time of day that may have a fraction and an offset. The
parts are read off the text first; whether they are in range is looked at when the value is made.
-/

namespace Bellman.Yaml

open Data

inductive Timestamp where
  | day (d : Date)
  | moment (m : Moment)
  deriving DecidableEq, Repr

namespace Timestamp

def number (ds : List Char) : Nat :=
  ds.foldl (fun v d => 10 * v + (d.toNat - '0'.toNat)) 0

/-- Between `least` and `most` digits ahead, as many as there are. -/
def digits? (least most : Nat) (cs : List Char) : Option (List Char × List Char) :=
  let ds := (cs.take most).takeWhile Char.isDigit
  if least ≤ ds.length then some (ds, cs.drop ds.length) else none

/-- What follows a given character. -/
def after? (c : Char) : List Char → Option (List Char)
  | d :: rest => if d = c then some rest else none
  | [] => none

/-- The date ahead, with a month and a day of one or two digits. -/
def date? (cs : List Char) : Option (Date × List Char) := do
  let (year, cs) ← digits? 4 4 cs
  let (month, cs) ← digits? 1 2 (← after? '-' cs)
  let (dayOfMonth, cs) ← digits? 1 2 (← after? '-' cs)
  return (⟨number year, number month, number dayOfMonth⟩, cs)

/-- The offset ahead in minutes: none, that of universal time, or one with a sign. -/
def offset? (cs : List Char) : Option (Option Int) :=
  match cs with
  | [] => some none
  | _ =>
    match cs.dropWhile fun c => c = ' ' || c = '\t' with
    | ['Z'] => some (some 0)
    | s :: rest => do
      if s ≠ '+' && s ≠ '-' then failure
      let (hours, rest) ← digits? 1 2 rest
      let minutes ← match rest with
        | [] => some []
        | rest => do
          let (ms, rest) ← digits? 2 2 (← after? ':' rest)
          if rest.isEmpty then some ms else none
      let total : Int := number hours * 60 + number minutes
      return some (if s = '-' then -total else total)
    | [] => none

/-- The time of day ahead, after whatever separates it from the date. -/
def time? (date : Date) (cs : List Char) : Option Moment := do
  let (hour, cs) ← digits? 1 2 cs
  let (minute, cs) ← digits? 2 2 (← after? ':' cs)
  let (second, cs) ← digits? 2 2 (← after? ':' cs)
  let (fraction, cs) := match cs with
    | '.' :: rest => (rest.takeWhile Char.isDigit, rest.dropWhile Char.isDigit)
    | cs => ([], cs)
  let micro := (fraction ++ List.replicate 6 '0').take 6
  let offset ← offset? cs
  return ⟨date, number hour, number minute, number second, number micro, offset⟩

/-- The timestamp that a text writes, if it writes one. A line feed may follow it. -/
def ofText? (cs : List Char) : Option Timestamp := do
  let (date, rest) ← date? (Tag.withoutFinalBreak cs)
  match rest with
  | [] => return .day date
  | c :: rest =>
    if c = 'T' || c = 't' then return .moment (← time? date rest)
    else if c = ' ' || c = '\t' then
      return .moment (← time? date (rest.dropWhile fun c => c = ' ' || c = '\t'))
    else failure

/-- Whether a text without a tag is a timestamp: a date alone needs all its digits. -/
def isImplicit (cs : List Char) : Bool :=
  match ofText? cs with
  | some (.day _) => Tag.isDay (Tag.withoutFinalBreak cs)
  | some (.moment _) => true
  | none => false

def toValue : Timestamp → Except Fault Value
  | day d => if d.isValid then .ok (.date d) else .error .invalidScalar
  | moment m => if m.isValid then .ok (.moment m) else .error .invalidScalar

end Timestamp

namespace Tag

/-- The words for true, without regard to case. -/
def isYes (s : String) : Bool :=
  ["yes", "true", "on"].contains s

/-- The words for false, without regard to case. -/
def isNo (s : String) : Bool :=
  ["no", "false", "off"].contains s

/-- Whether a word is written in small letters, with a capital, or in capitals. -/
def isWordCase (cs : List Char) : Bool :=
  cs.all Char.isLower || cs.all Char.isUpper ||
    (match cs with
      | c :: rest => c.isUpper && rest.all Char.isLower
      | [] => false)

/-- The tag of a scalar whose text decides. A line feed at its end does not count, unless the text
is nothing else. -/
def ofPlain (s : String) : Tag :=
  let cs := withoutFinalBreak s.toList
  let word := String.ofList cs
  let small := String.ofList (cs.map Char.toLower)
  if s.isEmpty || word = "~" || (small = "null" && isWordCase cs) then null
  else if word = "<<" then merge
  else if word = "=" then value
  else if (isYes small || isNo small) && isWordCase cs then bool
  else if isPointed cs then float
  else if isWhole cs then int
  else if Timestamp.isImplicit cs then timestamp
  else text

end Tag

end Bellman.Yaml
