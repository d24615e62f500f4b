import Bellman.Yaml.Token

/-!
# Plain scalars

A plain scalar is a text without quotes. It ends where a comment, a key's colon or, inside brackets,
an indicator begins, and goes on over lines that are indented far enough.
-/

namespace Bellman.Yaml

namespace Cursor

def isFlowIndicator (c : Char) : Bool :=
  ",?[]\x7b\x7d".toList.contains c

def endsPlain (inFlow : Bool) : List Char → Bool
  | [] => true
  | ch :: rest =>
    let next := rest.headD end_
    isSeparator ch ||
      (ch = ':' && (isSeparator next || (inFlow && ",[]\x7b\x7d".toList.contains next))) ||
      (inFlow && isFlowIndicator ch)

/-- How many characters ahead belong to a plain scalar before the next blank. -/
def plainLength (inFlow : Bool) : List Char → Nat
  | [] => 0
  | ch :: rest => if endsPlain inFlow (ch :: rest) then 0 else plainLength inFlow rest + 1

/-- The line breaks and spaces ahead; `none` if a mark of a document follows a break. -/
def plainBreaks : Nat → Cursor → Option (List Char) × Cursor
  | 0, c => (some [], c)
  | fuel + 1, c =>
    if c.peek = ' ' then plainBreaks fuel c.advance
    else match c.lineBreak? with
      | none => (some [], c)
      | some (br, c) =>
        if c.isDocumentMark then (none, c)
        else
          let (brs, c) := plainBreaks fuel c
          (brs.map (br :: ·), c)

/-- What lies between two parts of a plain scalar: how it counts in the text, and whether a line was
broken. Nothing at all ends the scalar. -/
def plainSpaces (c : Cursor) : List Char × Bool × Cursor :=
  let (blanks, c) := c.span (· = ' ')
  match c.lineBreak? with
  | none => (blanks, false, c)
  | some (br, c) =>
    if c.isDocumentMark then ([], true, c)
    else match plainBreaks (c.rest.length + 1) c with
      | (none, c) => ([], true, c)
      | (some brs, c) =>
        if br ≠ '\n' then (br :: brs, true, c)
        else (if brs.isEmpty then [' '] else brs, true, c)

/-- The parts of a plain scalar ahead, after the given space. The flag says whether a line was
broken after the last part. -/
def plainParts (inFlow : Bool) (indent : Nat) :
    Nat → List Char → Bool → Cursor → List Char × Bool × Cursor
  | 0, _, broken, c => ([], broken, c)
  | fuel + 1, space, broken, c =>
    let n := if c.peek = '#' then 0 else plainLength inFlow c.rest
    if n = 0 then ([], broken, c)
    else
      let part := c.rest.take n
      let (next, broken, c) := (c.skip n).plainSpaces
      if next.isEmpty || c.peek = '#' || (!inFlow && c.column < indent) then
        (space ++ part, broken, c)
      else
        let (rest, broken, c) := plainParts inFlow indent fuel next broken c
        (space ++ part ++ rest, broken, c)

/-- The plain scalar ahead in a collection of the given indentation, and whether a line was broken
after it. -/
def plainScalar (inFlow : Bool) (indentation : Int) (c : Cursor) : String × Bool × Cursor :=
  let (text, broken, c) :=
    plainParts inFlow (indentation + 1).toNat (c.rest.length + 1) [] false c
  (String.ofList text, broken, c)

end Cursor

end Bellman.Yaml
