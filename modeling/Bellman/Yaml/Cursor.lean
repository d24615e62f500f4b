import Bellman.Fault

/-!
# Positions in a document

A cursor is what is left of a document together with where that begins: how many characters came
before, on which line, and in which column. Beyond the end there is only the character `end_`, which
no document contains.
-/

namespace Bellman.Yaml

/-- The character that stands for the end of a document. -/
def end_ : Char := '\x00'

/-- The mark that may precede a document and takes no column. -/
def byteOrderMark : Char := '\uFEFF'

def isBreak (c : Char) : Bool :=
  c = '\n' || c = '\r' || c = '\x85' || c = '\u2028' || c = '\u2029'

def isLineEnd (c : Char) : Bool :=
  c = end_ || isBreak c

def isGap (c : Char) : Bool :=
  c = ' ' || isLineEnd c

def isSeparator (c : Char) : Bool :=
  c = '\t' || isGap c

def isNameChar (c : Char) : Bool :=
  c.isAlphanum || c = '-' || c = '_'

/-- What is left of a document, and where it begins. -/
structure Cursor where
  rest : List Char
  index : Nat := 0
  line : Nat := 0
  column : Nat := 0
  deriving Repr

namespace Cursor

def peek (c : Cursor) : Char :=
  c.rest.headD end_

/-- The character `k` places ahead. -/
def peekAt (c : Cursor) (k : Nat) : Char :=
  c.rest.getD k end_

def advance (c : Cursor) : Cursor :=
  match c.rest with
  | [] => c
  | ch :: rest =>
    if isBreak ch then ⟨rest, c.index + 1, c.line + 1, 0⟩
    else if ch = byteOrderMark then ⟨rest, c.index + 1, c.line, c.column⟩
    else ⟨rest, c.index + 1, c.line, c.column + 1⟩

def skip (c : Cursor) : Nat → Cursor
  | 0 => c
  | n + 1 => c.advance.skip n

/-- The characters ahead that satisfy a test. -/
def run (c : Cursor) (p : Char → Bool) : List Char :=
  c.rest.takeWhile p

/-- The characters ahead that satisfy a test, and the cursor after them. -/
def span (c : Cursor) (p : Char → Bool) : List Char × Cursor :=
  (c.run p, c.skip (c.run p).length)

def skipWhile (c : Cursor) (p : Char → Bool) : Cursor :=
  (c.span p).2

def skipSpaces (c : Cursor) : Cursor :=
  c.skipWhile (· = ' ')

/-- The cursor at the end of a comment, if there is one. -/
def skipComment (c : Cursor) : Cursor :=
  if c.peek = '#' then c.skipWhile (!isLineEnd ·) else c

/-- The line break ahead as it counts in a text, if there is one. -/
def lineBreak? (c : Cursor) : Option (Char × Cursor) :=
  let ch := c.peek
  if ch = '\r' && c.peekAt 1 = '\n' then some ('\n', c.skip 2)
  else if ch = '\r' || ch = '\n' || ch = '\x85' then some ('\n', c.advance)
  else if isBreak ch then some (ch, c.advance)
  else none

/-- Whether three equal characters ahead are followed by a gap, as in the marks of a document. -/
def isMark (c : Cursor) (ch : Char) : Bool :=
  c.peekAt 0 = ch && c.peekAt 1 = ch && c.peekAt 2 = ch && isSeparator (c.peekAt 3)

def isDocumentMark (c : Cursor) : Bool :=
  c.isMark '-' || c.isMark '.'

/-- The rest of a line that may hold only a comment. -/
def skipIgnoredLine (c : Cursor) : Except Fault Cursor :=
  let c := c.skipSpaces.skipComment
  if isLineEnd c.peek then
    match c.lineBreak? with
    | some (_, c) => .ok c
    | none => .ok c
  else .error .malformedDocument

end Cursor

end Bellman.Yaml
