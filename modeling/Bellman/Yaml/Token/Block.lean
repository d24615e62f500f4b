import Bellman.Yaml.Token

/-!
# Block scalars

A block scalar is a text written in lines of one indentation. Its header may give the indentation
and says what becomes of the line breaks at the end; a folded text joins lines by spaces.
-/

namespace Bellman.Yaml

/-- What becomes of the line breaks at the end of a block scalar. -/
inductive Chomping where
  /-- None is kept. -/
  | strip
  /-- The first is kept. -/
  | clip
  /-- All are kept. -/
  | keep
  deriving DecidableEq, Repr

/-- What the header of a block scalar says. -/
structure BlockHeader where
  chomping : Chomping := .clip
  increment : Option Nat := none
  deriving DecidableEq, Repr

namespace Cursor

/-- What a sign says about line breaks. -/
def chomping? (c : Char) : Option Chomping :=
  match c with
  | '+' => some .keep
  | '-' => some .strip
  | _ => none

def increment? (c : Cursor) : Except Fault (Option Nat × Cursor) :=
  if c.peek.isDigit then
    if c.peek = '0' then .error .malformedDocument
    else .ok (some (c.peek.toNat - '0'.toNat), c.advance)
  else .ok (none, c)

def blockHeader (c : Cursor) : Except Fault (BlockHeader × Cursor) := do
  let (header, c) ← match chomping? c.peek with
    | some chomping => do
      let (increment, c) ← c.advance.increment?
      pure (BlockHeader.mk chomping increment, c)
    | none => do
      let (increment, c) ← c.increment?
      match increment, chomping? c.peek with
      | some _, some chomping => pure (BlockHeader.mk chomping increment, c.advance)
      | _, _ => pure (BlockHeader.mk .clip increment, c)
  if !isGap c.peek then throw .malformedDocument
  return (header, ← c.skipIgnoredLine)

/-- The cursor after spaces, at most up to a column. -/
def skipIndent (indent : Nat) : Nat → Cursor → Cursor
  | 0, c => c
  | fuel + 1, c =>
    if c.column < indent && c.peek = ' ' then skipIndent indent fuel c.advance else c

/-- The line breaks ahead between which there is only indentation. -/
def blockBreaks (indent : Nat) : Nat → Cursor → List Char × Cursor
  | 0, c => ([], c)
  | fuel + 1, c =>
    let c := skipIndent indent c.rest.length c
    match c.lineBreak? with
    | none => ([], c)
    | some (br, c) =>
      let (brs, c) := blockBreaks indent fuel c
      (br :: brs, c)

/-- The line breaks and spaces ahead, and the widest indentation among them. -/
def blockIndentation : Nat → Nat → Cursor → List Char × Nat × Cursor
  | 0, widest, c => ([], widest, c)
  | fuel + 1, widest, c =>
    if c.peek = ' ' then
      let c := c.advance
      blockIndentation fuel (max widest c.column) c
    else match c.lineBreak? with
      | none => ([], widest, c)
      | some (br, c) =>
        let (brs, widest, c) := blockIndentation fuel widest c
        (br :: brs, widest, c)

/-- The lines ahead of one indentation, after the given line breaks. -/
def blockLines (folded : Bool) (indent : Nat) (chomping : Chomping) :
    Nat → List Char → Cursor → List Char × Cursor
  | 0, _, c => ([], c)
  | fuel + 1, breaks, c =>
    let isInside (c : Cursor) : Bool := c.column = indent && c.peek ≠ end_
    let isBlank (ch : Char) : Bool := ch = ' ' || ch = '\t'
    let startsText := !isBlank c.peek
    let (text, c) := c.span (!isLineEnd ·)
    let (br, c) := match c.lineBreak? with
      | some (br, c) => ([br], c)
      | none => ([], c)
    let (after, c) := blockBreaks indent (c.rest.length + 1) c
    if isInside c then
      let join :=
        if folded && br = ['\n'] && startsText && !isBlank c.peek then
          (if after.isEmpty then [' '] else [])
        else br
      let (lines, c) := blockLines folded indent chomping fuel after c
      (breaks ++ text ++ join ++ lines, c)
    else
      let ending := match chomping with
        | .strip => []
        | .clip => br
        | .keep => br ++ after
      (breaks ++ text ++ ending, c)

/-- The block scalar ahead in a collection of the given indentation. -/
def blockScalar (folded : Bool) (indentation : Int) (c : Cursor) :
    Except Fault (String × Cursor) := do
  let (header, c) ← c.advance.blockHeader
  let least := max 1 (indentation + 1).toNat
  let (breaks, indent, c) := match header.increment with
    | some n =>
      let indent := least + n - 1
      let (breaks, c) := blockBreaks indent (c.rest.length + 1) c
      (breaks, indent, c)
    | none =>
      let (breaks, widest, c) := blockIndentation (c.rest.length + 1) 0 c
      (breaks, max least widest, c)
  if c.column = indent && c.peek ≠ end_ then
    let (text, c) := blockLines folded indent header.chomping (c.rest.length + 1) breaks c
    return (String.ofList text, c)
  else
    return (String.ofList (if header.chomping = .keep then breaks else []), c)

end Cursor

end Bellman.Yaml
