import Bellman.Data.Index
import Bellman.Program.Build

/-!
# Retargeting stage programs

Between solves only right-hand sides and noise values of a stage program change: the state rows are
set to a state, the noise variables to a noise, and the rows of a slot are switched on or held wide
open again. At most one slot is live. A request that is refused leaves the program as it was.
-/

namespace Bellman

open Data

namespace StageProgram

variable {S : Type}

/-- A program whose state rows hold the given state. -/
def setState (p : StageProgram S) (state : List S) : StageProgram S :=
  { p with stateSides := state.map fun s => (s, s) }

/-- A program whose noise variables have the given values. -/
def setNoise (p : StageProgram S) (noise : List S) : StageProgram S :=
  { p with noise }

/-- A program whose state rows hold the state a plain value stands for. -/
def targetState [Scalar S] (p : StageProgram S) (state : Value) :
    Except Fault (StageProgram S) :=
  (Scalar.readVector "state" (.int p.dimStates) state).map p.setState

/-- A program whose noise variables have the values a plain value stands for. -/
def fixNoise [Scalar S] (p : StageProgram S) (noise : Value) : Except Fault (StageProgram S) :=
  (Scalar.readVector "noise" (.int p.noise.length) noise).map p.setNoise

/-- Check that a program has slots, and that a number is in the range of their indices. -/
def checkSlot (p : StageProgram S) (k : Number) : Except Fault Unit :=
  match p.body with
  | .direct _ => .error .slotsUnavailable
  | .slotted slots =>
    if k.isInRange slots.length then .ok ()
    else .error (k.shownIn (.slotOutOfRange k slots.length))

def modifySides (p : StageProgram S) (k : Nat) (f : SlotSides S → SlotSides S) :
    StageProgram S :=
  match p.body with
  | .direct _ => p
  | .slotted slots =>
    { p with body := .slotted (slots.modify k fun slot => { slot with sides := f slot.sides }) }

def switchOn [Zero S] (p : StageProgram S) (k : Nat) : StageProgram S :=
  { p.modifySides k SlotSides.live with live := some k }

def switchOff [Neg S] (p : StageProgram S) (k : Nat) : StageProgram S :=
  { p.modifySides k (SlotSides.pinned p.infinity) with
    live := if p.live = some k then none else p.live }

/-- Switch on slot `k`, which is refused while any slot is live. A number in the range of the
indices that is no index itself is found out last. -/
def activate [Zero S] (p : StageProgram S) (k : Number) : Except Fault (StageProgram S) := do
  p.checkSlot k
  match p.live with
  | some live => throw (.slotStillLive live k)
  | none => return p.switchOn (← k.toIndex).toNat

def deactivate [Neg S] (p : StageProgram S) (k : Number) : Except Fault (StageProgram S) := do
  p.checkSlot k
  return p.switchOff (← k.toIndex).toNat

def deactivateLive [Neg S] (p : StageProgram S) : StageProgram S :=
  match p.live with
  | some k => p.switchOff k
  | none => p

/-- Whether the slot at a position, which counts from the end if it is negative, is pinned. -/
def isPinned [Neg S] [LE S] [DecidableLE S] (p : StageProgram S) (position : Int) :
    Except Fault Bool :=
  match elementAt? p.slots position with
  | some slot => .ok (slot.sides.isPinned p.infinity)
  | none => .error .indexOutOfRange

end StageProgram

end Bellman
