import Bellman.Yaml.Timestamp

/-!
# Nodes

The nodes of a document as a tree, each with its tag. A node that is referred to by an alias stands
in the place of the alias, too, unless it is a collection around that place.
-/

namespace Bellman.Yaml

inductive Node where
  | scalar (tag : Tag) (text : String)
  | sequence (tag : Tag) (items : List Node)
  | mapping (tag : Tag) (entries : List (Node × Node))
  /-- A sequence around this place, once more. -/
  | listAgain
  /-- A mapping around this place, once more. -/
  | mapAgain
  /-- A mapping into which something is merged that is no mapping. -/
  | unmergeable

namespace Node

instance : Inhabited Node := ⟨scalar .null ""⟩

def tag : Node → Tag
  | scalar t _ => t
  | sequence t _ => t
  | mapping t _ => t
  | listAgain => .sequence
  | mapAgain => .mapping
  | unmergeable => .mapping

end Node

end Bellman.Yaml
