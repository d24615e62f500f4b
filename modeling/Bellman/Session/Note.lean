import Bellman.Problem.CostModel
import Bellman.UpdateMode

/-!
# The journal of a session

What a session does is noted as it happens: programs that are built, cuts that are added later,
slots that are switched, changes of phase, and stages without a feasible step. A note has a line of
text, which names the part of the library it comes from and how much it matters.
-/

namespace Bellman

open Data

/-- Where a stage model stands. -/
inductive Phase where
  | ready
  | solving
  | solvedOptimal
  | solvedInfeasible
  deriving DecidableEq, Repr

namespace Phase

def keyword : Phase → String
  | ready => "READY"
  | solving => "SOLVING"
  | solvedOptimal => "SOLVED_OPTIMAL"
  | solvedInfeasible => "SOLVED_INFEASIBLE"

end Phase

/-- Something that happened in a session. -/
inductive Note where
  | built (stage : Int) (mode : UpdateMode) (model : CostModel) (cuts : Nat)
  | synced (stage : Int) (added total : Nat)
  | switchedOn (slot : Nat)
  | switchedOff (slot : Nat)
  | phase (stage : Int) (before after : Phase)
  | infeasible (stage : Int) (state noise : Value) (termination : Option String)

namespace Note

def text : Note → String
  | built stage mode model cuts =>
    s!"built stage {stage} model: mode={mode.keyword} cost={model.keyword} cuts={cuts}"
  | synced stage added total => s!"stage {stage}: synced {added} new cut(s), {total} total"
  | switchedOn k => s!"noise slot {k} live"
  | switchedOff k => s!"noise slot {k} pinned"
  | phase stage before after => s!"stage {stage}: {before.keyword} -> {after.keyword}"
  | infeasible stage state noise termination =>
    s!"stage {stage} infeasible at state={state.literal} noise={noise.literal} " ++
      s!"({Fault.terminationText termination})"

/-- The part of the library a note comes from. -/
def source : Note → String
  | built .. => "builder"
  | switchedOn _ => "cache"
  | switchedOff _ => "cache"
  | _ => "solver"

def level : Note → String
  | infeasible .. => "WARNING"
  | _ => "DEBUG"

def line (n : Note) : String :=
  s!"{n.level} {n.source}: {n.text}"

end Note

end Bellman
