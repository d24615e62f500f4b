import Bellman.Yaml.Graph.Parser
import Bellman.Yaml.Scalar
import Bellman.Yaml.Token.Lexer

/-!
# Values of documents

The value of a document is that of its only node.

Of several faults in a document the one nearest to the root is reported, and of those at one depth
the first. So every fault carries its depth.
-/

namespace Bellman.Yaml

open Data

/-- A result, or a fault at some depth. -/
abbrev Deep := Except (Nat × Fault)

namespace Deep

/-- Two results, or the fault of the two that is nearer to the root; the first if they are equally
near. -/
def both {α β : Type} (a : Deep α) (b : Deep β) : Deep (α × β) :=
  match a, b with
  | .ok x, .ok y => .ok (x, y)
  | .error e, .ok _ => .error e
  | .ok _, .error e => .error e
  | .error d, .error e => if e.1 < d.1 then .error e else .error d

/-- A result, or a fault at a given depth. -/
def at_ {α : Type} (depth : Nat) : Except Fault α → Deep α
  | .ok x => .ok x
  | .error e => .error (depth, e)

/-- The fault of a document that is not well formed, at a given depth. -/
def malformed {α : Type} (depth : Nat) : Deep α :=
  .error (depth, .malformedDocument)

end Deep

namespace Node

mutual

/-- The text of a node where one is needed: that of a scalar, or of the entry that stands for a
mapping. -/
def scalarText? : Node → Option String
  | scalar _ text => some text
  | mapping _ entries => standingText? entries
  | _ => none

def standingText? : List (Node × Node) → Option String
  | [] => none
  | (k, v) :: rest => if k.tag = .value then v.scalarText? else standingText? rest

end

/-- Whether nodes of a tag are made from a text. -/
def isTextual : Tag → Bool
  | .sequence => false
  | .mapping => false
  | .set => false
  | .orderedMapping => false
  | .pairs => false
  | _ => true

/-- The value of a mapping for which the text of one of its entries stands. A time has to be a text
itself. -/
def standingValue (tag : Tag) (text : String) : Except Fault Value :=
  match tag with
  | .timestamp => .error .timeNotText
  | tag => Scalar.value tag text

/-- The value of a key, which has to be one that a mapping can hold. -/
def keyValue (depth : Nat) (k : Node) : Deep Value :=
  let tag := if k.tag = .value then .text else k.tag
  if isTextual tag then
    match k, k.scalarText? with
    | scalar _ _, some text => Deep.at_ depth (Scalar.value tag text)
    | _, some text => Deep.at_ depth (standingValue tag text)
    | _, none => Deep.malformed depth
  else Deep.malformed depth

/-- Entries with every key once, bound to the last value it is given. -/
def unite (entries : List (Value × Value)) : List (Value × Value) :=
  entries.foldl (fun united (k, v) => Value.insertEntry k v united) []

mutual

def toValue (depth : Nat) : Node → Deep Value
  | scalar tag text =>
    if isTextual tag then Deep.at_ depth (Scalar.value tag text)
    else Deep.malformed (depth + 1)
  | sequence tag items =>
    match tag with
    | .sequence => .list <$> listValues (depth + 1) items
    | .orderedMapping => .list <$> pairValues (depth + 1) items
    | .pairs => .list <$> pairValues (depth + 1) items
    | .mapping => Deep.malformed (depth + 1)
    | .set => Deep.malformed (depth + 1)
    | _ => Deep.malformed depth
  | mapping tag entries =>
    match tag with
    | .mapping => (fun es => .map (unite es)) <$> entryValues (depth + 1) entries
    | .set => (fun es => .set ((unite es).map (·.1))) <$> entryValues (depth + 1) entries
    | .sequence => Deep.malformed (depth + 1)
    | .orderedMapping => Deep.malformed (depth + 1)
    | .pairs => Deep.malformed (depth + 1)
    | tag =>
      match standingText? entries with
      | some text => Deep.at_ depth (standingValue tag text)
      | none => Deep.malformed depth
  | listAgain => .ok .listAgain
  | mapAgain => .ok .mapAgain
  | unmergeable => Deep.malformed (depth + 1)

def listValues (depth : Nat) : List Node → Deep (List Value)
  | [] => .ok []
  | n :: rest => (fun (v, vs) => v :: vs) <$> Deep.both (n.toValue depth) (listValues depth rest)

/-- The pairs that mappings of one entry each stand for. -/
def pairValues (depth : Nat) : List Node → Deep (List Value)
  | [] => .ok []
  | mapping _ [(k, v)] :: rest =>
    (fun ((a, b), vs) => .tuple [a, b] :: vs) <$>
      Deep.both (Deep.both (k.toValue depth) (v.toValue depth)) (pairValues depth rest)
  | _ :: _ => Deep.malformed depth

def entryValues (depth : Nat) : List (Node × Node) → Deep (List (Value × Value))
  | [] => .ok []
  | (k, v) :: rest =>
    (fun (e, es) => e :: es) <$>
      Deep.both (Deep.both (k.keyValue depth) (v.toValue depth)) (entryValues depth rest)

end

end Node

namespace Document

def isPrintable (c : Char) : Bool :=
  c = '\t' || c = '\n' || c = '\r' || (' ' ≤ c && c ≤ '~') || c = '\x85' ||
    ('\xa0' ≤ c && c ≤ '\uFFFD') || 0x10000 ≤ c.toNat

/-- The value of the only document in a text; nothing if there is none. -/
def parse (text : List Char) : Except Fault Value := do
  if !text.all isPrintable then throw .malformedDocument
  match ← Graph.ofTokens? (← Token.ofText text) with
  | none => return .null
  | some g =>
    match g.tree.toValue 0 with
    | .ok v => return v
    | .error (_, e) => throw e

end Document

end Bellman.Yaml
