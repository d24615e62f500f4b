import Bellman.Yaml.Token

/-!
# Names, tags and directives

The parts of a document that say something about its values: anchors and aliases, tags, and the
directives in front.
-/

namespace Bellman.Yaml

namespace Cursor

/-- Whether a character may be part of a tag without being escaped. -/
def isUriChar (c : Char) : Bool :=
  isNameChar c || ";/?:@&=+$,.!~*'()[]".toList.contains c

def hexDigit? (c : Char) : Option Nat :=
  if c.isDigit then some (c.toNat - '0'.toNat)
  else if 'a' ≤ c && c ≤ 'f' then some (c.toNat - 'a'.toNat + 10)
  else if 'A' ≤ c && c ≤ 'F' then some (c.toNat - 'A'.toNat + 10)
  else none

def hexNumber (c : Cursor) (n : Nat) : Except Fault (Nat × Cursor) :=
  match ((List.range n).mapM fun k => hexDigit? (c.peekAt k)) with
  | some ds => .ok (ds.foldl (fun v d => 16 * v + d) 0, c.skip n)
  | none => .error .malformedDocument

def escapedBytes : Nat → Cursor → Except Fault (List UInt8 × Cursor)
  | 0, c => .ok ([], c)
  | fuel + 1, c =>
    if c.peek = '%' then do
      let (byte, c) ← c.advance.hexNumber 2
      let (rest, c) ← escapedBytes fuel c
      return (UInt8.ofNat byte :: rest, c)
    else .ok ([], c)

/-- The text ahead in which bytes may be escaped. -/
def uriText : Nat → Cursor → Except Fault (String × Cursor)
  | 0, c => .ok ("", c)
  | fuel + 1, c => do
    let (chars, c) := c.span isUriChar
    if c.peek = '%' then
      let (bytes, c) ← escapedBytes c.rest.length c
      match String.fromUTF8? ⟨bytes.toArray⟩ with
      | some s =>
        let (rest, c) ← uriText fuel c
        return (String.ofList chars ++ s ++ rest, c)
      | none => throw .malformedDocument
    else return (String.ofList chars, c)

/-- The text ahead in which bytes may be escaped, which may not be missing. -/
def uri (c : Cursor) : Except Fault (String × Cursor) :=
  if isUriChar c.peek || c.peek = '%' then uriText (c.rest.length + 1) c
  else .error .malformedDocument

/-- The handle ahead: exclamation marks around a name, or a single one. -/
def handle (c : Cursor) : Except Fault (String × Cursor) :=
  if c.peek ≠ '!' then .error .malformedDocument
  else if c.peekAt 1 = ' ' then .ok ("!", c.advance)
  else
    let name := c.advance.run isNameChar
    if c.peekAt (name.length + 1) = '!' then
      .ok (String.ofList ('!' :: name ++ ['!']), c.skip (name.length + 2))
    else .error .malformedDocument

/-- The name ahead, after the character that says whether it is an anchor or an alias. -/
def anchorName (c : Cursor) : Except Fault (String × Cursor) :=
  let (name, c) := c.advance.span isNameChar
  if name.isEmpty then .error .malformedDocument
  else if isSeparator c.peek || "?:,]\x7d%@\x60".toList.contains c.peek then
    .ok (String.ofList name, c)
  else .error .malformedDocument

def tag (c : Cursor) : Except Fault (TagText × Cursor) := do
  let (t, c) ← if c.peekAt 1 = '<' then do
      let (suffix, c) ← (c.skip 2).uri
      if c.peek = '>' then pure (⟨none, suffix⟩, c.advance) else throw .malformedDocument
    else if isSeparator (c.peekAt 1) then pure (⟨none, "!"⟩, c.advance)
    else if ((c.advance.run (!isGap ·)).contains '!') then do
      let (handle, c) ← c.handle
      let (suffix, c) ← c.uri
      pure (⟨some handle, suffix⟩, c)
    else do
      let (suffix, c) ← c.advance.uri
      pure (⟨some "!", suffix⟩, c)
  if isGap c.peek then return (t, c) else throw .malformedDocument

def decimal (c : Cursor) : Except Fault (Nat × Cursor) :=
  let (digits, c) := c.span Char.isDigit
  if digits.isEmpty then .error .malformedDocument
  else .ok (digits.foldl (fun v d => 10 * v + (d.toNat - '0'.toNat)) 0, c)

def version (c : Cursor) : Except Fault ((Nat × Nat) × Cursor) := do
  let (major, c) ← c.skipSpaces.decimal
  if c.peek ≠ '.' then throw .malformedDocument
  let (minor, c) ← c.advance.decimal
  if isGap c.peek then return ((major, minor), c) else throw .malformedDocument

/-- The directive ahead, with its line. -/
def directive (c : Cursor) : Except Fault (Token × Cursor) := do
  let (name, c) := c.advance.span isNameChar
  if name.isEmpty || !isGap c.peek then throw .malformedDocument
  let (token, c) ← match String.ofList name with
    | "YAML" => do
      let ((major, minor), c) ← c.version
      pure (Token.versionDirective major minor, c)
    | "TAG" => do
      let (handle, c) ← c.skipSpaces.handle
      if c.peek ≠ ' ' then throw .malformedDocument
      let (start, c) ← c.skipSpaces.uri
      if !isGap c.peek then throw .malformedDocument
      pure (Token.tagDirective handle start, c)
    | _ => pure (Token.reservedDirective, c.skipWhile (!isLineEnd ·))
  return (token, ← c.skipIgnoredLine)

end Cursor

end Bellman.Yaml
