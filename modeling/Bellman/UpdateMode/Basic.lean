/-!
# The update modes

Between two solves a stage program is retargeted in one of two ways: the noise variables are fixed
to the realized value, or the right-hand sides of rows that were laid out for every noise value are
switched. Either mode is known by a keyword.
-/

namespace Bellman

/-- How a stage program is retargeted to a noise value. -/
inductive UpdateMode where
  /-- The noise variables are fixed to the value. -/
  | rebuild
  /-- The rows of the value's slot are switched on. -/
  | slotReuse
  deriving DecidableEq, Repr

namespace UpdateMode

def keyword : UpdateMode → String
  | rebuild => "REBUILD"
  | slotReuse => "SLOT_REUSE"

def ofKeyword? : String → Option UpdateMode
  | "REBUILD" => some rebuild
  | "SLOT_REUSE" => some slotReuse
  | _ => none

end UpdateMode

end Bellman
