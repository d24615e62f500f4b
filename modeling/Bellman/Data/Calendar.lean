/-!
# Dates and moments

A plain value may be a date, or a moment with a time of day and possibly an offset from universal
time. Both come only from timestamps and are written in two ways: for reading, and as a literal.
-/

namespace Bellman.Data

/-- A day of the Gregorian calendar. -/
structure Date where
  year : Nat
  month : Nat
  day : Nat
  deriving DecidableEq, Repr

/-- A moment; `offset` is in minutes east of universal time. -/
structure Moment where
  date : Date
  hour : Nat
  minute : Nat
  second : Nat
  microsecond : Nat
  offset : Option Int
  deriving DecidableEq, Repr

/-- Decimal digits padded with zeros to a width. -/
def padded (width n : Nat) : String :=
  let ds := toString n
  String.ofList (List.replicate (width - ds.length) '0') ++ ds

namespace Date

def isLeapYear (year : Nat) : Bool :=
  year % 4 == 0 && (year % 100 != 0 || year % 400 == 0)

def daysInMonth (year month : Nat) : Nat :=
  if month = 2 then (if isLeapYear year then 29 else 28)
  else if month = 4 || month = 6 || month = 9 || month = 11 then 30
  else 31

/-- Whether there is such a day. -/
def isValid (d : Date) : Bool :=
  0 < d.year && 0 < d.month && d.month ≤ 12 && 0 < d.day && d.day ≤ daysInMonth d.year d.month

/-- Year, month and day with hyphens. -/
def text (d : Date) : String :=
  s!"{padded 4 d.year}-{padded 2 d.month}-{padded 2 d.day}"

def literal (d : Date) : String :=
  s!"datetime.date({d.year}, {d.month}, {d.day})"

end Date

namespace Moment

/-- Whether there is such a moment; its offset has to be less than a day. -/
def isValid (m : Moment) : Bool :=
  m.date.isValid && m.hour < 24 && m.minute < 60 && m.second < 60 &&
    (m.offset.getD 0).natAbs < 24 * 60

/-- Date and time with a space between them, the fraction only if there is one. -/
def text (m : Moment) : String :=
  let fraction := if m.microsecond = 0 then "" else s!".{padded 6 m.microsecond}"
  let offset := match m.offset with
    | none => ""
    | some o =>
      let sign := if o < 0 then "-" else "+"
      s!"{sign}{padded 2 (o.natAbs / 60)}:{padded 2 (o.natAbs % 60)}"
  s!"{m.date.text} {padded 2 m.hour}:{padded 2 m.minute}:{padded 2 m.second}{fraction}{offset}"

/-- The literal of an offset, as whole days and the seconds beyond them. -/
def offsetLiteral (o : Int) : String :=
  let seconds := o * 60
  let days := seconds.fdiv 86400
  let rest := seconds.fmod 86400
  let fields := (if days = 0 then [] else [s!"days={days}"]) ++
    (if rest = 0 then [] else [s!"seconds={rest}"])
  if o = 0 then "datetime.timezone.utc"
  else
    let inner := ", ".intercalate fields
    s!"datetime.timezone(datetime.timedelta({inner}))"

def literal (m : Moment) : String :=
  let clock := [m.hour, m.minute] ++
    (if m.second = 0 && m.microsecond = 0 then [] else [m.second]) ++
    (if m.microsecond = 0 then [] else [m.microsecond])
  let fields := ([m.date.year, m.date.month, m.date.day] ++ clock).map toString ++
    (match m.offset with
      | none => []
      | some o => [s!"tzinfo={offsetLiteral o}"])
  let inner := ", ".intercalate fields
  s!"datetime.datetime({inner})"

end Moment

end Bellman.Data
