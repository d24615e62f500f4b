import Bellman.Yaml.Cursor

/-!
# Tokens

The tokens of a document. Besides what is written there are tokens for what indentation says: where
a block collection begins and ends, and that something was a key.
-/

namespace Bellman.Yaml

/-- A tag as written: a handle with the rest, or the whole of it. -/
structure TagText where
  handle : Option String
  suffix : String
  deriving DecidableEq, Repr

inductive Token where
  | versionDirective (major minor : Nat)
  | tagDirective (handle start : String)
  | reservedDirective
  | documentStart
  | documentEnd
  | streamEnd
  | blockSequenceStart
  | blockMappingStart
  | blockEnd
  | flowSequenceStart
  | flowSequenceEnd
  | flowMappingStart
  | flowMappingEnd
  | flowEntry
  | blockEntry
  | key
  | value
  | alias (name : String)
  | anchor (name : String)
  | tag (t : TagText)
  | scalar (text : String) (plain : Bool)
  deriving DecidableEq, Repr

namespace Token

def isDirective : Token → Bool
  | versionDirective .. => true
  | tagDirective .. => true
  | reservedDirective => true
  | _ => false

end Token

end Bellman.Yaml
