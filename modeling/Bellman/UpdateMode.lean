import Bellman.Fault
import Bellman.Text.Keyword

/-!
# Reading an update mode

An update mode is given as such, or by a text that names it.
-/

namespace Bellman

open Data

namespace UpdateMode

/-- The mode that a value is or that a text names, whatever its case and with hyphens or
underscores. -/
def parse : Value → Except Fault UpdateMode
  | .mode mode => .ok mode
  | .text s =>
    let underscored := (Text.trimmedKeyword s).map fun c => if c = '-' then '_' else c
    match ofKeyword? underscored with
    | some mode => .ok mode
    | none => .error (.unknownUpdateMode (.text s))
  | v => .error (if v.isWritable then .unknownUpdateMode v else .tooLong)

end UpdateMode

end Bellman
