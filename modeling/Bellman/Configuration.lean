import Bellman.Parameters
import Bellman.Yaml.Document

/-!
# Configuration files

Parameters can be kept in one section of a document. Only documents with a known suffix are read,
and their root has to be a mapping unless it counts as false. A file that does not exist stands for
the defaults, whatever its name.
-/

namespace Bellman

open Data

namespace Configuration

/-- What is found at a path. -/
inductive Found where
  | nothing
  | directory
  | file (bytes : List UInt8)

/-- The suffix of a file name: what follows its last dot, with the dot. A dot at either end of the
name begins no suffix. -/
def suffix (name : String) : String :=
  let back := name.toList.reverse
  let extension := back.takeWhile (· ≠ '.')
  match back.dropWhile (· ≠ '.') with
  | '.' :: stem =>
    if extension.isEmpty || stem.isEmpty then "" else String.ofList ('.' :: extension.reverse)
  | _ => ""

def isKnownSuffix (s : String) : Bool :=
  [".yaml", ".yml"].contains (String.ofList (s.toList.map Char.toLower))

/-- A text in which every line ends in the same way. -/
def unifyLineEnds : List Char → List Char
  | '\r' :: '\n' :: rest => '\n' :: unifyLineEnds rest
  | '\r' :: rest => '\n' :: unifyLineEnds rest
  | c :: rest => c :: unifyLineEnds rest
  | [] => []

def decode (bytes : List UInt8) : Except Fault (List Char) :=
  match String.fromUTF8? ⟨bytes.toArray⟩ with
  | some s => .ok (unifyLineEnds s.toList)
  | none => .error .undecodableText

/-- The name of the section that holds parameters. -/
def section_ : String :=
  "sddp"

/-- The entries of a document, of which there are none if it counts as false. -/
def rootEntries (document : Value) : Except Fault (List (Value × Value)) :=
  if !document.isTrue then .ok []
  else match document with
    | .map entries => .ok entries
    | _ => .error .notAMapping

def ofDocument (document : Value) : Except Fault Parameters := do
  let entries ← rootEntries document
  let fields ← ((Value.lookup? entries section_).getD .null).toEntries
  Parameters.ofMapping (.map fields)

def ofText (text : List Char) : Except Fault Parameters := do
  ofDocument (← Yaml.Document.parse text)

/-- The parameters at a path with a given file name. -/
def load (name : String) (found : Found) : Except Fault Parameters :=
  let known := isKnownSuffix (suffix name)
  match found with
  | .nothing => .ok .default
  | .directory =>
    .error (if known then .unreadableFile else .unsupportedFormat (suffix name))
  | .file bytes =>
    if known then do ofText (← decode bytes) else .error (.unsupportedFormat (suffix name))

end Configuration

end Bellman
