import Bellman.Yaml.Token.Block
import Bellman.Yaml.Token.Plain
import Bellman.Yaml.Token.Quoted

/-!
# Reading tokens

The tokens of a document are read from the front. Outside of brackets the indentation of a line
opens and closes collections. A key without a mark of its own is recognised only at its colon, so
every place where such a key may have begun is kept until the line ends or too many characters have
passed.
-/

namespace Bellman.Yaml

/-- A place where a key may have begun. -/
structure PossibleKey where
  /-- The number of tokens before it. -/
  tokens : Nat
  /-- Whether the collection is broken unless it is a key. -/
  required : Bool
  index : Nat
  line : Nat
  column : Nat
  deriving Repr

/-- The state of reading tokens. -/
structure Lexer where
  cursor : Cursor
  tokens : Array Token := #[]
  /-- How many brackets are open. -/
  flowLevel : Nat := 0
  /-- The column of the innermost block collection, and of those around it. -/
  indent : Int := -1
  indents : List Int := []
  /-- Whether a key without a mark may begin here. -/
  allowKey : Bool := true
  /-- The possible keys, at most one for each number of open brackets. -/
  keys : List (Nat × PossibleKey) := []

namespace Lexer

/-- How far a key may be from its colon. -/
def keyReach : Nat := 1024

def inFlow (l : Lexer) : Bool :=
  0 < l.flowLevel

def push (l : Lexer) (t : Token) : Lexer :=
  { l with tokens := l.tokens.push t }

/-- Put tokens in front of those from a given number on. -/
def insert (l : Lexer) (n : Nat) (ts : List Token) : Lexer :=
  { l with tokens := l.tokens.extract 0 n ++ ts.toArray ++ l.tokens.extract n l.tokens.size }

/-- Whether a possible key can no longer become one. -/
def isStale (l : Lexer) (key : PossibleKey) : Bool :=
  key.line ≠ l.cursor.line || keyReach < l.cursor.index - key.index

def dropStale (l : Lexer) : Except Fault Lexer :=
  if l.keys.any fun (_, key) => l.isStale key && key.required then .error .malformedDocument
  else .ok { l with keys := l.keys.filter fun (_, key) => !l.isStale key }

/-- Give up the possible key between the present brackets. -/
def dropKey (l : Lexer) : Except Fault Lexer :=
  match l.keys.lookup l.flowLevel with
  | none => .ok l
  | some key =>
    if key.required then .error .malformedDocument
    else .ok { l with keys := l.keys.filter (·.1 ≠ l.flowLevel) }

/-- Note that a key may begin here. -/
def saveKey (l : Lexer) : Except Fault Lexer := do
  if !l.allowKey then return l
  let required := !l.inFlow && l.indent = l.cursor.column
  let l ← l.dropKey
  let key : PossibleKey :=
    ⟨l.tokens.size, required, l.cursor.index, l.cursor.line, l.cursor.column⟩
  return { l with keys := (l.flowLevel, key) :: l.keys }

/-- Close the block collections that are indented further than a column. -/
def closeBlocks (column : Int) : List Int → Lexer → Lexer
  | [], l => l
  | outer :: outers, l =>
    if column < l.indent then
      closeBlocks column outers { l.push .blockEnd with indent := outer, indents := outers }
    else l

/-- Close the block collections that a column is outside of. -/
def unwind (l : Lexer) (column : Int) : Lexer :=
  if l.inFlow then l else closeBlocks column l.indents l

def opensBlock (l : Lexer) (column : Nat) : Bool :=
  l.indent < column

def enterBlock (l : Lexer) (column : Nat) : Lexer :=
  { l with indents := l.indent :: l.indents, indent := column }

/-- Enter a block collection that begins here, with its token, if the column is further in. -/
def openBlock (l : Lexer) (t : Token) : Lexer :=
  if l.opensBlock l.cursor.column then (l.enterBlock l.cursor.column).push t else l

/-- The cursor at the next token, and whether a line was broken before it. -/
def skipToToken : Nat → Cursor → Cursor × Bool
  | 0, c => (c, false)
  | fuel + 1, c =>
    let c := c.skipSpaces.skipComment
    match c.lineBreak? with
    | none => (c, false)
    | some (_, c) => ((skipToToken fuel c).1, true)

def advanceToToken (l : Lexer) : Lexer :=
  let c := if l.cursor.index = 0 && l.cursor.peek = byteOrderMark then l.cursor.advance
    else l.cursor
  let (c, broken) := skipToToken (c.rest.length + 1) c
  { l with cursor := c, allowKey := l.allowKey || (broken && !l.inFlow) }

def take (l : Lexer) (n : Nat) (t : Token) : Lexer :=
  { l.push t with cursor := l.cursor.skip n }

def documentMark (l : Lexer) (t : Token) : Except Fault Lexer := do
  let l ← (l.unwind (-1)).dropKey
  return { l.take 3 t with allowKey := false }

def directive (l : Lexer) : Except Fault Lexer := do
  let l ← (l.unwind (-1)).dropKey
  let (t, c) ← l.cursor.directive
  return { l.push t with cursor := c, allowKey := false }

def openFlow (l : Lexer) (t : Token) : Except Fault Lexer := do
  let l ← l.saveKey
  return { l.take 1 t with flowLevel := l.flowLevel + 1, allowKey := true }

def closeFlow (l : Lexer) (t : Token) : Except Fault Lexer := do
  let l ← l.dropKey
  if l.flowLevel = 0 then throw .malformedDocument
  return { l.take 1 t with flowLevel := l.flowLevel - 1, allowKey := false }

/-- Take a comma between brackets. -/
def flowEntry (l : Lexer) : Except Fault Lexer := do
  let l ← { l with allowKey := true }.dropKey
  return l.take 1 .flowEntry

def blockEntry (l : Lexer) : Except Fault Lexer := do
  if !l.inFlow && !l.allowKey then throw .malformedDocument
  let l := if l.inFlow then l else l.openBlock .blockSequenceStart
  let l ← { l with allowKey := true }.dropKey
  return l.take 1 .blockEntry

/-- Take the mark of a key. -/
def markedKey (l : Lexer) : Except Fault Lexer := do
  if !l.inFlow && !l.allowKey then throw .malformedDocument
  let l := if l.inFlow then l else l.openBlock .blockMappingStart
  let l ← { l with allowKey := !l.inFlow }.dropKey
  return l.take 1 .key

/-- Take the colon of a value, and recognise the key before it. -/
def value (l : Lexer) : Except Fault Lexer := do
  match l.keys.lookup l.flowLevel with
  | some key =>
    let l := { l with keys := l.keys.filter (·.1 ≠ l.flowLevel), allowKey := false }
    let opens := !l.inFlow && l.opensBlock key.column
    let l := if opens then l.enterBlock key.column else l
    let l := l.insert key.tokens (if opens then [.blockMappingStart, .key] else [.key])
    return l.take 1 .value
  | none =>
    if !l.inFlow && !l.allowKey then throw .malformedDocument
    let l := if l.inFlow then l else l.openBlock .blockMappingStart
    let l ← { l with allowKey := !l.inFlow }.dropKey
    return l.take 1 .value

/-- Take a token that may begin a key, read by `scan`. -/
def node (l : Lexer) (scan : Cursor → Except Fault (Token × Cursor)) : Except Fault Lexer := do
  let l ← l.saveKey
  let (t, c) ← scan l.cursor
  return { l.push t with cursor := c, allowKey := false }

def blockScalar (l : Lexer) (folded : Bool) : Except Fault Lexer := do
  let l ← { l with allowKey := true }.dropKey
  let (text, c) ← l.cursor.blockScalar folded l.indent
  return { l.push (.scalar text false) with cursor := c }

def plainScalar (l : Lexer) : Except Fault Lexer := do
  let l ← l.saveKey
  let (text, broken, c) := l.cursor.plainScalar l.inFlow l.indent
  return { l.push (.scalar text true) with cursor := c, allowKey := broken }

def beginsPlain (l : Lexer) : Bool :=
  let ch := l.cursor.peek
  !(isSeparator ch || "-?:,[]\x7b\x7d#&*!|>'\"%@\x60".toList.contains ch) ||
    (!isSeparator (l.cursor.peekAt 1) &&
      (ch = '-' || (!l.inFlow && (ch = '?' || ch = ':'))))

def next (l : Lexer) : Except Fault Lexer := do
  let c := l.cursor
  let gapFollows := isSeparator (c.peekAt 1)
  let scalar (double : Bool) (c : Cursor) : Except Fault (Token × Cursor) := do
    let (text, c) ← c.quotedScalar double
    return (.scalar text false, c)
  if c.column = 0 && c.peek = '%' then l.directive
  else if c.column = 0 && c.isMark '-' then l.documentMark .documentStart
  else if c.column = 0 && c.isMark '.' then l.documentMark .documentEnd
  else match c.peek with
    | '[' => l.openFlow .flowSequenceStart
    | '\x7b' => l.openFlow .flowMappingStart
    | ']' => l.closeFlow .flowSequenceEnd
    | '\x7d' => l.closeFlow .flowMappingEnd
    | ',' => l.flowEntry
    | '*' => l.node fun c => do
      let (name, c) ← c.anchorName
      return (.alias name, c)
    | '&' => l.node fun c => do
      let (name, c) ← c.anchorName
      return (.anchor name, c)
    | '!' => l.node fun c => do
      let (t, c) ← c.tag
      return (.tag t, c)
    | '\'' => l.node (scalar false)
    | '"' => l.node (scalar true)
    | ch =>
      if ch = '-' && gapFollows then l.blockEntry
      else if ch = '?' && (l.inFlow || gapFollows) then l.markedKey
      else if ch = ':' && (l.inFlow || gapFollows) then l.value
      else if ch = '|' && !l.inFlow then l.blockScalar false
      else if ch = '>' && !l.inFlow then l.blockScalar true
      else if l.beginsPlain then l.plainScalar
      else throw .malformedDocument

def run : Nat → Lexer → Except Fault (List Token)
  | 0, _ => .error .malformedDocument
  | fuel + 1, l => do
    let l ← l.advanceToToken.dropStale
    let l := l.unwind l.cursor.column
    if l.cursor.peek = end_ then
      let l ← (l.unwind (-1)).dropKey
      return (l.push .streamEnd).tokens.toList
    else run fuel (← l.next)

end Lexer

namespace Token

def ofText (text : List Char) : Except Fault (List Token) :=
  Lexer.run (text.length + 2) { cursor := { rest := text } }

end Token

end Bellman.Yaml
