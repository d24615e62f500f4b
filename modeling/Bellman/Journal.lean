import Bellman.Data.Value
import Bellman.Fault
import Bellman.Text.Keyword

/-!
# Journals

Records of what happens are written to a journal if they matter enough. A journal is set up with a
level that is given by name, and may be kept in a file as well, in which nothing below the level of
debugging is written.
-/

namespace Bellman

open Data

namespace Journal

/-- The levels with names, each under its own name or an older one. -/
def namedLevels : List (String × Int) :=
  [("CRITICAL", 50), ("FATAL", 50), ("ERROR", 40), ("WARNING", 30), ("WARN", 30), ("INFO", 20),
    ("DEBUG", 10), ("NOTSET", 0)]

/-- A name that is known, but as that of a text. -/
def formatName : String :=
  "BASIC_FORMAT"

/-- A name that is known, but as that of a table. -/
def stylesName : String :=
  "_STYLES"

/-- The level of a journal if it is not given, or by a name that is not known. -/
def defaultLevel : Int := 20

/-- The least level of what is written to a file. -/
def fileLevel : Int := 10

def format : String :=
  "%(asctime)s %(levelname)s | %(name)s | %(message)s"

/-- The level that a value names, whatever the case. -/
def levelOf (given : Value) : Except Fault Int :=
  let name := Text.keyword given.display
  if name = formatName then .error .unknownLevel
  else if name = stylesName then .error .levelNotNumeric
  else .ok ((namedLevels.lookup name).getD defaultLevel)

/-- A journal that is set up. -/
structure Setup where
  level : Int
  /-- Whether the journal is kept in a file, too. -/
  toFile : Bool
  deriving DecidableEq, Repr

def setUp (given : Value) (toFile : Bool) : Except Fault Setup := do
  return ⟨← levelOf given, toFile⟩

namespace Setup

/-- How many places a record is written to. -/
def handlers (s : Setup) : Nat :=
  if s.toFile then 2 else 1

end Setup

def levelName (level : Int) : String :=
  match namedLevels.find? (·.2 = level) with
  | some (name, _) => name
  | none => s!"Level {level}"

/-- Something to be recorded, and how much it matters. -/
structure Entry where
  level : Int
  text : String

/-- Whether a record is written to the file of a journal. A text with half of a surrogate pair
cannot be encoded, so its record is dropped. -/
def Setup.keeps (s : Setup) (r : Entry) : Bool :=
  s.toFile && s.level ≤ r.level && fileLevel ≤ r.level &&
    r.text.toList.all fun c => (Text.halfCode? c).isNone

/-- What a record adds to a file, without its time. -/
def written (source : String) (r : Entry) : String :=
  s!"{levelName r.level} | {source} | {r.text}\n"

/-- Whether a character ends a line when a file is read. -/
def endsLine (c : Char) : Bool :=
  ['\n', '\x0b', '\x0c', '\r', '\x1c', '\x1d', '\x1e', '\x85', '\u2028', '\u2029'].contains c

/-- The lines of a text. A carriage return and the line feed behind it end one line. -/
def splitLines : List Char → List (List Char)
  | [] => []
  | '\r' :: '\n' :: rest => [] :: splitLines rest
  | c :: rest =>
    if endsLine c then [] :: splitLines rest
    else match splitLines rest with
      | [] => [[c]]
      | line :: lines => (c :: line) :: lines

/-- The lines in the file of a journal after some records from one source. -/
def Setup.lines (s : Setup) (source : String) (records : List Entry) : List String :=
  (records.filter s.keeps).flatMap fun r =>
    (splitLines (written source r).toList).map String.ofList

end Journal

end Bellman
