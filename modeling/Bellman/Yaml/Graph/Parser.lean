import Bellman.Yaml.Graph
import Bellman.Yaml.Token

/-!
# The graph of a document

The tokens of a document are put together to nodes. An anchor names a node from where it begins, so
that an alias can refer to it from there on. The number of a collection is the number of tokens that
are left where it begins, which is another one for every collection. Collections may be nested, but
not without bounds.
-/

namespace Bellman.Yaml

/-- The tokens that are left and the nodes that have names. -/
structure Parser where
  tokens : List Token
  /-- What the handles of tags stand for. -/
  handles : List (String × String)
  /-- The numbers and the nodes with names, and no node for one that has not ended. -/
  anchors : List (String × Nat × Option GraphNode) := []
  /-- How many collections are around this place. -/
  depth : Nat := 0

namespace Parser

/-- How many collections may be around a place. -/
def deepest : Nat := 488

/-- What handles stand for unless a directive says otherwise. -/
def defaultHandles : List (String × String) :=
  [("!", "!"), ("!!", Tag.standard)]

def peek (p : Parser) : Token :=
  p.tokens.headD .streamEnd

def drop (p : Parser) : Parser :=
  { p with tokens := p.tokens.tail }

/-- The number of a collection that begins here. -/
def number (p : Parser) : Nat :=
  p.tokens.length

/-- Enter a collection, unless there are too many around it. -/
def enter (p : Parser) : Except Fault Parser :=
  if p.depth < deepest then .ok { p with depth := p.depth + 1 } else .error .nestedTooDeeply

def leave (p : Parser) : Parser :=
  { p with depth := p.depth - 1 }

def resolve (p : Parser) (t : TagText) : Except Fault WrittenTag :=
  match t.handle with
  | none => .ok (.ofName t.suffix)
  | some handle =>
    match p.handles.lookup handle with
    | some start => .ok (.ofName (start ++ t.suffix))
    | none => .error .malformedDocument

/-- Give a node that begins here a name, which may not be in use. -/
def declare (p : Parser) : Option String → Except Fault Parser
  | none => .ok p
  | some name =>
    match p.anchors.lookup name with
    | some _ => .error .malformedDocument
    | none => .ok { p with anchors := (name, p.number, none) :: p.anchors }

def bindName (p : Parser) (name : Option String) (id : Nat) (n : GraphNode) : Parser :=
  match name with
  | none => p
  | some name => { p with anchors := (name, id, some n) :: p.anchors }

/-- The anchor and the tag in front of a node, in either order. -/
def properties (p : Parser) : Except Fault (Option String × WrittenTag × Parser) :=
  match p.peek with
  | .anchor name =>
    let p := p.drop
    match p.peek with
    | .tag t => do
      return (some name, ← p.resolve t, p.drop)
    | _ => .ok (some name, .untagged, p)
  | .tag t =>
    let q := p.drop
    match q.peek with
    | .anchor name => do
      return (some name, ← p.resolve t, q.drop)
    | _ => do
      return (none, ← p.resolve t, q)
  | _ => .ok (none, .untagged, p)

/-- Whether a token can only follow the key of a mapping in block style. -/
def endsBlockKey : Token → Bool
  | .key => true
  | .value => true
  | .blockEnd => true
  | _ => false

/-- Whether a token can only follow an entry of a sequence that has no indentation of its own. -/
def endsIndentlessEntry : Token → Bool
  | .blockEntry => true
  | t => endsBlockKey t

/-- Whether a token can only follow a part of an entry between brackets. -/
def endsFlowPart (close : Token) : Token → Bool
  | .value => true
  | .flowEntry => true
  | t => t = close

mutual

/-- The node ahead. In block style it may be a block collection; as part of a mapping it may also be
a sequence without indentation of its own. -/
def node (block indentless : Bool) : Nat → Parser → Except Fault (GraphNode × Parser)
  | 0, _ => .error .malformedDocument
  | fuel + 1, p =>
    match p.peek with
    | .alias name =>
      match p.anchors.lookup name with
      | some (_, some n) => .ok (n, p.drop)
      | some (id, none) => .ok (.outer id, p.drop)
      | none => .error .malformedDocument
    | _ => do
      let (name, tag, p) ← p.properties
      let p ← p.declare name
      let id := p.number
      let (n, p) ← match p.peek with
        | .blockEntry =>
          if indentless then do
            let (items, p) ← indentlessEntries fuel (← p.enter)
            pure (GraphNode.sequence id (tag.forCollection .sequence) items, p.leave)
          else unwritten name tag p
        | .scalar text plain => pure (GraphNode.scalar (tag.forScalar text plain) text, p.drop)
        | .flowSequenceStart => do
          let (items, p) ← flowItems true fuel (← p.enter).drop
          pure (GraphNode.sequence id (tag.forCollection .sequence) items, p.leave)
        | .flowMappingStart => do
          let (entries, p) ← flowEntries true fuel (← p.enter).drop
          pure (GraphNode.mapping id (tag.forCollection .mapping) entries, p.leave)
        | .blockSequenceStart =>
          if block then do
            let (items, p) ← blockItems fuel (← p.enter).drop
            pure (GraphNode.sequence id (tag.forCollection .sequence) items, p.leave)
          else unwritten name tag p
        | .blockMappingStart =>
          if block then do
            let (entries, p) ← blockEntries fuel (← p.enter).drop
            pure (GraphNode.mapping id (tag.forCollection .mapping) entries, p.leave)
          else unwritten name tag p
        | _ => unwritten name tag p
      return (n, p.bindName name id n)

/-- The node of which only an anchor or a tag is written. -/
def unwritten (name : Option String) (tag : WrittenTag) (p : Parser) :
    Except Fault (GraphNode × Parser) :=
  if name.isSome || tag ≠ .untagged then .ok (.scalar (tag.forScalar "" true) "", p)
  else .error .malformedDocument

def blockItems : Nat → Parser → Except Fault (List GraphNode × Parser)
  | 0, _ => .error .malformedDocument
  | fuel + 1, p =>
    match p.peek with
    | .blockEntry => do
      let p := p.drop
      let (n, p) ← if p.peek = .blockEntry || p.peek = .blockEnd then pure (GraphNode.missing, p)
        else node true false fuel p
      let (rest, p) ← blockItems fuel p
      return (n :: rest, p)
    | .blockEnd => .ok ([], p.drop)
    | _ => .error .malformedDocument

/-- The items of a sequence without indentation of its own. -/
def indentlessEntries : Nat → Parser → Except Fault (List GraphNode × Parser)
  | 0, _ => .error .malformedDocument
  | fuel + 1, p =>
    match p.peek with
    | .blockEntry => do
      let p := p.drop
      let (n, p) ← if endsIndentlessEntry p.peek then pure (GraphNode.missing, p)
        else node true false fuel p
      let (rest, p) ← indentlessEntries fuel p
      return (n :: rest, p)
    | _ => .ok ([], p)

def blockEntries : Nat → Parser → Except Fault (List (GraphNode × GraphNode) × Parser)
  | 0, _ => .error .malformedDocument
  | fuel + 1, p =>
    match p.peek with
    | .key => do
      let p := p.drop
      let (k, p) ← if endsBlockKey p.peek then pure (GraphNode.missing, p)
        else node true true fuel p
      let (v, p) ← blockValue fuel p
      let (rest, p) ← blockEntries fuel p
      return ((k, v) :: rest, p)
    | .value => .error .malformedDocument
    | .blockEnd => .ok ([], p.drop)
    | _ => .error .malformedDocument

def blockValue : Nat → Parser → Except Fault (GraphNode × Parser)
  | 0, _ => .error .malformedDocument
  | fuel + 1, p =>
    match p.peek with
    | .value =>
      let p := p.drop
      if endsBlockKey p.peek then .ok (.missing, p) else node true true fuel p
    | _ => .ok (.missing, p)

def flowPart (close : Token) : Nat → Parser → Except Fault (GraphNode × Parser)
  | 0, _ => .error .malformedDocument
  | fuel + 1, p =>
    if endsFlowPart close p.peek then .ok (.missing, p) else node false false fuel p

def flowValue (close : Token) : Nat → Parser → Except Fault (GraphNode × Parser)
  | 0, _ => .error .malformedDocument
  | fuel + 1, p =>
    match p.peek with
    | .value =>
      let p := p.drop
      if p.peek = .flowEntry || p.peek = close then .ok (.missing, p)
      else node false false fuel p
    | _ => .ok (.missing, p)

/-- The items of a sequence in brackets. A key among them begins a mapping of one entry. -/
def flowItems (first : Bool) : Nat → Parser → Except Fault (List GraphNode × Parser)
  | 0, _ => .error .malformedDocument
  | fuel + 1, p => do
    if p.peek = .flowSequenceEnd then return ([], p.drop)
    if !first && p.peek ≠ .flowEntry then throw .malformedDocument
    let p := if first then p else p.drop
    match p.peek with
    | .key =>
      let id := p.number
      let (k, p) ← flowPart .flowSequenceEnd fuel (← p.enter).drop
      let (v, p) ← flowValue .flowSequenceEnd fuel p
      let (rest, p) ← flowItems false fuel p.leave
      return (GraphNode.mapping id .mapping [(k, v)] :: rest, p)
    | .flowSequenceEnd => return ([], p.drop)
    | _ =>
      let (n, p) ← node false false fuel p
      let (rest, p) ← flowItems false fuel p
      return (n :: rest, p)

/-- The entries of a mapping in braces. An item without a key's mark is a key without a value. -/
def flowEntries (first : Bool) :
    Nat → Parser → Except Fault (List (GraphNode × GraphNode) × Parser)
  | 0, _ => .error .malformedDocument
  | fuel + 1, p => do
    if p.peek = .flowMappingEnd then return ([], p.drop)
    if !first && p.peek ≠ .flowEntry then throw .malformedDocument
    let p := if first then p else p.drop
    match p.peek with
    | .key =>
      let (k, p) ← flowPart .flowMappingEnd fuel p.drop
      let (v, p) ← flowValue .flowMappingEnd fuel p
      let (rest, p) ← flowEntries false fuel p
      return ((k, v) :: rest, p)
    | .flowMappingEnd => return ([], p.drop)
    | _ =>
      let (k, p) ← node false false fuel p
      let (rest, p) ← flowEntries false fuel p
      return ((k, .missing) :: rest, p)

end

/-- The directives ahead, as what they say about the handles of tags. -/
def directives (version : Bool) (handles : List (String × String)) :
    List Token → Except Fault (List (String × String) × List Token)
  | .versionDirective major _ :: rest =>
    if version || major ≠ 1 then .error .malformedDocument
    else directives true handles rest
  | .tagDirective handle start :: rest =>
    match handles.lookup handle with
    | some _ => .error .malformedDocument
    | none => directives version ((handle, start) :: handles) rest
  | .reservedDirective :: rest => directives version handles rest
  | rest => .ok (handles, rest)

/-- Whether a token says that a document has no content. -/
def endsDocument : Token → Bool
  | .documentStart => true
  | .documentEnd => true
  | .streamEnd => true
  | t => t.isDirective

def content (p : Parser) : Except Fault (GraphNode × Parser) :=
  node true false (4 * p.tokens.length + 4) p

/-- The collections with names by number. -/
def named (p : Parser) : List (Nat × GraphNode) :=
  p.anchors.filterMap fun (_, id, n) => n.map fun n => (id, n)

end Parser

namespace Graph

/-- The only document among tokens; none if there is no document at all. -/
def ofTokens? (tokens : List Token) : Except Fault (Option Graph) := do
  let first := tokens.headD .streamEnd
  if first = .streamEnd then return none
  let (n, p) ← if first = .documentStart || first.isDirective then do
      let (handles, rest) ← Parser.directives false [] tokens
      if rest.headD .streamEnd ≠ .documentStart then throw .malformedDocument
      let p : Parser := { tokens := rest.tail, handles := handles ++ Parser.defaultHandles }
      if Parser.endsDocument p.peek then pure (GraphNode.missing, p) else p.content
    else Parser.content { tokens, handles := Parser.defaultHandles }
  if (p.tokens.dropWhile (· = .documentEnd)).headD .streamEnd = .streamEnd then
    return some ⟨n, p.named⟩
  else throw .malformedDocument

end Graph

end Bellman.Yaml
