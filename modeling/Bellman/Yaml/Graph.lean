import Bellman.Yaml.Node

/-!
# Nodes with aliases

A document is a graph, because an alias stands for a node with a name. A node that is complete where
the alias is met takes its place. Inside the node that it names an alias refers to it by number, so
that a collection may contain itself.

`Graph.tree` unrolls a graph. On the way down a collection that is met inside itself is only marked.
Merged entries are put in place: those of a mapping come before its own, which win over them, and of
a list of mappings those of the last come first, so that the first wins.
-/

namespace Bellman.Yaml

/-- A node as it is written. Collections are numbered in a way that tells them apart. -/
inductive GraphNode where
  | scalar (tag : Tag) (text : String)
  | sequence (id : Nat) (tag : Tag) (items : List GraphNode)
  | mapping (id : Nat) (tag : Tag) (entries : List (GraphNode × GraphNode))
  /-- The collection of some number, which is around this place. -/
  | outer (id : Nat)

namespace GraphNode

instance : Inhabited GraphNode := ⟨scalar .null ""⟩

/-- The node that is not written at all. -/
def missing : GraphNode :=
  scalar .null ""

/-- Whether a key merges its value into its mapping. -/
def isMerge : GraphNode → Bool
  | scalar t _ => t = .merge
  | sequence _ t _ => t = .merge
  | mapping _ t _ => t = .merge
  | outer _ => false

mutual

def size : GraphNode → Nat
  | scalar _ _ => 1
  | sequence _ _ items => sizes items + 1
  | mapping _ _ entries => entrySizes entries + 1
  | outer _ => 1

def sizes : List GraphNode → Nat
  | [] => 0
  | n :: rest => n.size + sizes rest

def entrySizes : List (GraphNode × GraphNode) → Nat
  | [] => 0
  | (k, v) :: rest => k.size + v.size + entrySizes rest

end

end GraphNode

/-- A tag as written with its handle resolved; the lone exclamation mark asks for the tag of an
untagged node. -/
inductive WrittenTag where
  | untagged
  | nonSpecific
  | named (t : Tag)
  deriving DecidableEq, Repr

namespace WrittenTag

def ofName (name : String) : WrittenTag :=
  if name = "!" then nonSpecific else named (.ofName name)

def forScalar (t : WrittenTag) (text : String) (plain : Bool) : Tag :=
  match t with
  | named t => t
  | nonSpecific => .ofPlain text
  | untagged => if plain then .ofPlain text else .text

/-- The tag of a collection that is of some kind unless it says otherwise. -/
def forCollection (t : WrittenTag) (kind : Tag) : Tag :=
  match t with
  | named t => t
  | _ => kind

end WrittenTag

/-- The only node of a document, and the collections with names by number. -/
structure Graph where
  root : GraphNode
  named : List (Nat × GraphNode)

namespace Graph

/-- The node that a node stands for. -/
def resolve (g : Graph) : GraphNode → GraphNode
  | .outer id => (g.named.lookup id).getD .missing
  | n => n

mutual

/-- The entries of a mapping, those that are merged into it first; none if something else than
mappings is merged. Within the merging of a mapping into itself only its own entries count. -/
def flatten (g : Graph) (within : List Nat) (id : Nat) (entries : List (GraphNode × GraphNode)) :
    Nat → Option (List (GraphNode × GraphNode))
  | 0 => none
  | fuel + 1 => do
    let own := entries.filter fun (k, _) => !k.isMerge
    if within.contains id then return own
    let merged ← (entries.filter fun (k, _) => k.isMerge).mapM fun (_, v) =>
      g.mergedEntries (id :: within) v fuel
    return merged.flatten ++ own

def mergedEntries (g : Graph) (within : List Nat) (v : GraphNode) :
    Nat → Option (List (GraphNode × GraphNode))
  | 0 => none
  | fuel + 1 =>
    match g.resolve v with
    | .mapping id _ entries => g.flatten within id entries fuel
    | .sequence _ _ items => do
      let lists ← items.mapM fun n => match g.resolve n with
        | .mapping id _ entries => g.flatten within id entries fuel
        | _ => none
      return lists.reverse.flatten
    | _ => none

end

/-- The tree below a node. The collections `around` it are only marked if they are met again, except
the contents of the uppermost ones are unrolled as if each began there: `apart` counts one for every
list and two for every mapping that is still among these. In a list of pairs a mapping only stands
for a pair, and nothing is merged into it. -/
def unroll (g : Graph) (apart : Nat) (around : List Nat) (isPair : Bool) (n : GraphNode) :
    Nat → Node
  | 0 => .unmergeable
  | fuel + 1 =>
    let inside (id : Nat) : List Nat := if apart = 0 then id :: around else []
    match g.resolve n with
    | .scalar tag text => .scalar tag text
    | .outer _ => .unmergeable
    | .sequence id tag items =>
      if around.contains id then .listAgain
      else
        let ofPairs := tag = .orderedMapping || tag = .pairs
        .sequence tag (items.map fun n => g.unroll (apart - 1) (inside id) ofPairs n fuel)
    | .mapping id tag entries =>
      if around.contains id then .mapAgain
      else
        let below (entries : List (GraphNode × GraphNode)) : Node :=
          .mapping tag <| entries.map fun (k, v) =>
            (g.unroll (apart - 2) (inside id) false k fuel,
              g.unroll (apart - 2) (inside id) false v fuel)
        if isPair || !(tag = .mapping || tag = .set) then below entries
        else match g.flatten [] id entries fuel with
          | some entries => below entries
          | none => .unmergeable

/-- The number of steps that no way down a graph takes. -/
def reach (g : Graph) : Nat :=
  8 * (g.root.size + GraphNode.sizes (g.named.map (·.2))) + 8

/-- The tree of a document. Its root and what that holds are taken apart by whoever uses them, be it
mappings or lists of pairs, so their contents are unrolled as if each began there. -/
def tree (g : Graph) : Node :=
  g.unroll 4 [] false g.root g.reach

end Graph

end Bellman.Yaml
