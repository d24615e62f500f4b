import Bellman.Yaml.Token.Tag

/-!
# Quoted scalars

A text in single or double quotes. A line break inside counts as a space, and further ones as
themselves; between double quotes characters can be escaped.
-/

namespace Bellman.Yaml

namespace Cursor

/-- The character that an escape of one letter stands for. -/
def escape? (c : Char) : Option Char :=
  match c with
  | '0' => some '\x00'
  | 'a' => some '\x07'
  | 'b' => some '\x08'
  | 't' => some '\t'
  | '\t' => some '\t'
  | 'n' => some '\n'
  | 'v' => some '\x0b'
  | 'f' => some '\x0c'
  | 'r' => some '\r'
  | 'e' => some '\x1b'
  | ' ' => some ' '
  | '"' => some '"'
  | '\\' => some '\\'
  | '/' => some '/'
  | 'N' => some '\x85'
  | '_' => some '\xa0'
  | 'L' => some '\u2028'
  | 'P' => some '\u2029'
  | _ => none

def largestCode : Nat := 0x10FFFF

/-- How many digits the code of a character has after a letter. -/
def codeLength? (c : Char) : Option Nat :=
  match c with
  | 'x' => some 2
  | 'u' => some 4
  | 'U' => some 8
  | _ => none

/-- The line breaks ahead, between which there may be spaces and tabs; a mark of a document may not
be among them. -/
def quotedBreaks : Nat → Cursor → Except Fault (List Char × Cursor)
  | 0, c => .ok ([], c)
  | fuel + 1, c =>
    if c.isDocumentMark then .error .malformedDocument
    else
      let c := c.skipWhile fun ch => ch = ' ' || ch = '\t'
      match c.lineBreak? with
      | none => .ok ([], c)
      | some (br, c) => do
        let (brs, c) ← quotedBreaks fuel c
        return (br :: brs, c)

/-- The spaces and line breaks ahead, as they count in the text. -/
def quotedSpaces (c : Cursor) : Except Fault (List Char × Cursor) := do
  let (blanks, c) := c.span fun ch => ch = ' ' || ch = '\t'
  if c.peek = end_ then throw .malformedDocument
  match c.lineBreak? with
  | none => return (blanks, c)
  | some (br, c) =>
    let (brs, c) ← quotedBreaks (c.rest.length + 1) c
    if br ≠ '\n' then return (br :: brs, c)
    else return (if brs.isEmpty then [' '] else brs, c)

/-- What an escape stands for; the cursor is after its backslash. -/
def escaped (c : Cursor) : Except Fault (List Char × Cursor) :=
  match escape? c.peek, codeLength? c.peek with
  | some ch, _ => .ok ([ch], c.advance)
  | none, some n => do
    let (code, c) ← c.advance.hexNumber n
    if largestCode < code then
      throw (if code < 0x80000000 then .invalidScalar else .scalarTooLarge)
    return ([Text.ofCode code], c)
  | none, none =>
    match c.lineBreak? with
    | some (_, c) => quotedBreaks (c.rest.length + 1) c
    | none => .error .malformedDocument

/-- The text ahead up to the closing quote. -/
def quotedText (double : Bool) : Nat → Cursor → Except Fault (List Char × Cursor)
  | 0, _ => .error .malformedDocument
  | fuel + 1, c => do
    let quote : Char := if double then '"' else '\''
    let ch := c.peek
    if !double && ch = '\'' && c.peekAt 1 = '\'' then
      let (rest, c) ← quotedText double fuel (c.skip 2)
      return ('\'' :: rest, c)
    else if ch = quote then return ([], c.advance)
    else if double && ch = '\\' then
      let (chars, c) ← c.advance.escaped
      let (rest, c) ← quotedText double fuel c
      return (chars ++ rest, c)
    else if isSeparator ch then
      let (chars, c) ← c.quotedSpaces
      let (rest, c) ← quotedText double fuel c
      return (chars ++ rest, c)
    else
      let (rest, c) ← quotedText double fuel c.advance
      return (ch :: rest, c)

def quotedScalar (double : Bool) (c : Cursor) : Except Fault (String × Cursor) := do
  let (text, c) ← quotedText double (c.rest.length + 1) c.advance
  return (String.ofList text, c)

end Cursor

end Bellman.Yaml
