import Bellman.Cut
import Bellman.Parameters
import Bellman.Problem

/-!
# Stage programs

A stage program is the linear program of one stage: find a control, the state that follows, and a
bound on the future cost, so that the cost of the stage plus that bound is least. The state is held
by range rows whose right-hand sides are set before each solve. The noise enters in one of two ways.
Either its coordinates are variables with fixed values, or the rows of every noise value are laid
out side by side as slots, whose right-hand sides are wide open except those of the one live slot.

`StageProgram.rows` and `StageProgram.objective` say what a program means; `IsFeasible` and `value`
are their semantics at a point.
-/

namespace Bellman

open Data

/-- A range that a variable is kept in; either end may be open. -/
structure Box (S : Type) where
  lower : Option S
  upper : Option S
  deriving DecidableEq, Repr

section Boxes

variable {S : Type} [Zero S] [Sub S] [LE S] [DecidableLE S] [LT S] [DecidableLT S]

/-- A bound from below, which is none if it is minus infinity. -/
def lowerBound (s : S) : Except Fault (Option S) :=
  if isFinite s then .ok (some s)
  else if isInfinite s && s < 0 then .ok none
  else .error .unusableBound

/-- A bound from above, which is none if it is infinity. -/
def upperBound (s : S) : Except Fault (Option S) :=
  if isFinite s then .ok (some s)
  else if isInfinite s && 0 < s then .ok none
  else .error .unusableBound

variable [Scalar S]

def readBound (v : Value) : Except Fault S :=
  match Scalar.read v with
  | .error (.notANumber _) => .error .unusableBound
  | .error (.notNumeric _) => .error .boundNotNumeric
  | r => r

/-- The box between two declared bounds, if they are usable. -/
def DeclaredBounds.box (b : DeclaredBounds) : Except Fault (Box S) := do
  let lower ← match b.lower with
    | .null => pure none
    | v => do lowerBound (← readBound v)
  let upper ← match b.upper with
    | .null => pure none
    | v => do upperBound (← readBound v)
  return ⟨lower, upper⟩

end Boxes

/-- The right-hand sides of the rows of one slot. -/
structure SlotSides (S : Type) where
  dynamicsLower : List S
  dynamicsUpper : List S
  equalityLower : List S
  equalityUpper : List S
  inequalityUpper : List S
  costLower : List S
  deriving DecidableEq, Repr

namespace SlotSides

variable {S : Type}

/-- All right-hand sides that bound from below. -/
def lowers (s : SlotSides S) : List S :=
  s.dynamicsLower ++ s.equalityLower ++ s.costLower

/-- All right-hand sides that bound from above. -/
def uppers (s : SlotSides S) : List S :=
  s.dynamicsUpper ++ s.equalityUpper ++ s.inequalityUpper

/-- The same right-hand sides with every lower one and every upper one replaced. -/
def replace (lower upper : S) (s : SlotSides S) : SlotSides S where
  dynamicsLower := s.dynamicsLower.map fun _ => lower
  dynamicsUpper := s.dynamicsUpper.map fun _ => upper
  equalityLower := s.equalityLower.map fun _ => lower
  equalityUpper := s.equalityUpper.map fun _ => upper
  inequalityUpper := s.inequalityUpper.map fun _ => upper
  costLower := s.costLower.map fun _ => lower

def live [Zero S] (s : SlotSides S) : SlotSides S :=
  s.replace 0 0

/-- The right-hand sides of a slot whose rows are held wide open by a sentinel. -/
def pinned [Neg S] (infinity : S) (s : SlotSides S) : SlotSides S :=
  s.replace (-infinity) infinity

@[simp] theorem lowers_replace (lower upper : S) (s : SlotSides S) :
    (s.replace lower upper).lowers = s.lowers.map fun _ => lower := by
  simp only [lowers, replace, List.map_append]

@[simp] theorem uppers_replace (lower upper : S) (s : SlotSides S) :
    (s.replace lower upper).uppers = s.uppers.map fun _ => upper := by
  simp only [uppers, replace, List.map_append]

@[simp] theorem replace_replace (a b c d : S) (s : SlotSides S) :
    (s.replace a b).replace c d = s.replace c d := by
  simp only [replace, List.map_map, Function.comp_def]

/-- Whether every right-hand side is at the sentinel or beyond. -/
def isPinned [Neg S] [LE S] [DecidableLE S] (infinity : S) (s : SlotSides S) : Bool :=
  (s.lowers.all fun r => r ≤ -infinity) && (s.uppers.all fun r => infinity ≤ r)

end SlotSides

/-- The rows of one noise value: the expressions with the value put in, and the right-hand sides. -/
structure NoiseSlot (S : Type) where
  dynamics : List (Expr S)
  equalities : List (Expr S)
  inequalities : List (Expr S)
  pieces : List (Expr S)
  sides : SlotSides S
  deriving DecidableEq, Repr

/-- The cost of a stage when the noise is a variable. -/
inductive DirectCost (S : Type) where
  /-- The cost is part of the objective. -/
  | single (cost : Expr S)
  /-- A column bounds every piece of the cost from above. -/
  | largest (pieces : List (Expr S))
  deriving DecidableEq, Repr

/-- The rows of a stage when the noise is a variable. -/
structure DirectRows (S : Type) where
  dynamics : List (Expr S)
  equalities : List (Expr S)
  inequalities : List (Expr S)
  cost : DirectCost S
  deriving DecidableEq, Repr

/-- The part of a program in which the noise enters. -/
inductive Body (S : Type) where
  | direct (rows : DirectRows S)
  | slotted (slots : List (NoiseSlot S))
  deriving DecidableEq, Repr

/-- The linear program of one stage, with all that is set between solves. Bounds are kept as they
were declared; whether they are usable shows when they are looked at. -/
structure StageProgram (S : Type) where
  stage : Int
  stateBounds : List DeclaredBounds
  controlBounds : List DeclaredBounds
  /-- The bound below which the future cost is never taken to lie. -/
  futureLower : S
  /-- The sentinel that holds a row wide open. -/
  infinity : S
  /-- Which state the cuts are written over. -/
  cutVariable : CutVariable
  /-- The right-hand sides of the rows that hold the state. -/
  stateSides : List (S × S)
  /-- The values that the noise variables are fixed to. -/
  noise : List S
  body : Body S
  cuts : List (Cut S)
  /-- The slot that is switched on. -/
  live : Option Nat

inductive RowName where
  | stateFix (i : Nat)
  | dynamics (i : Nat)
  | equality (n : Nat)
  | inequality (n : Nat)
  | costPiece (n : Nat)
  | slotDynamics (k i : Nat)
  | slotEquality (k j : Nat)
  | slotInequality (k j : Nat)
  | slotCost (k p : Nat)
  | cut (n : Nat)
  deriving DecidableEq, Repr

namespace RowName

/-- The text of a row's name. Rows that can be added one by one are counted from one, all others
from zero. -/
def text : RowName → String
  | stateFix i => s!"state_fix[{i}]"
  | dynamics i => s!"dynamics[{i}]"
  | equality n => s!"equalities[{n + 1}]"
  | inequality n => s!"inequalities[{n + 1}]"
  | costPiece n => s!"cost_pieces[{n + 1}]"
  | slotDynamics k i => s!"dyn_slot[{k},{i}]"
  | slotEquality k j => s!"eq_slot[{k},{j}]"
  | slotInequality k j => s!"ineq_slot[{k},{j}]"
  | slotCost k p => s!"cost_slot[{k},{p}]"
  | cut n => s!"cuts[{n + 1}]"

end RowName

/-- A named range constraint on an expression. -/
structure Row (S : Type) where
  name : RowName
  body : Expr S
  lower : Option S
  upper : Option S
  deriving DecidableEq, Repr

section Semantics

variable {S : Type} [LE S]

/-- Whether a scalar lies between two optional bounds. -/
def Within (lower upper : Option S) (s : S) : Prop :=
  (∀ l ∈ lower, l ≤ s) ∧ (∀ u ∈ upper, s ≤ u)

variable [Zero S] [Add S] [Mul S]

def Row.Holds (w : Nat → S) (point : Column → S) (r : Row S) : Prop :=
  Within r.lower r.upper (r.body.eval w point)

end Semantics

variable {S : Type}

namespace NoiseSlot

variable [One S] [Neg S]

/-- The rows of slot `k` that give the next state. -/
def dynamicsRows (k : Nat) (s : NoiseSlot S) : List (Row S) :=
  (s.dynamics.zip (s.sides.dynamicsLower.zip s.sides.dynamicsUpper)).zipIdx.map
    fun ((e, lo, hi), i) =>
      ⟨.slotDynamics k i, .ofColumn (.nextState i) :: e.neg, some lo, some hi⟩

def equalityRows (k : Nat) (s : NoiseSlot S) : List (Row S) :=
  (s.equalities.zip (s.sides.equalityLower.zip s.sides.equalityUpper)).zipIdx.map
    fun ((e, lo, hi), j) => ⟨.slotEquality k j, e, some lo, some hi⟩

def inequalityRows (k : Nat) (s : NoiseSlot S) : List (Row S) :=
  (s.inequalities.zip s.sides.inequalityUpper).zipIdx.map
    fun ((e, hi), j) => ⟨.slotInequality k j, e, none, some hi⟩

/-- The rows of slot `k` that keep the cost column above the pieces of the cost. -/
def costRows (k : Nat) (s : NoiseSlot S) : List (Row S) :=
  (s.pieces.zip s.sides.costLower).zipIdx.map
    fun ((e, lo), p) => ⟨.slotCost k p, .ofColumn .cost :: e.neg, some lo, none⟩

/-- The rows of all slots, those of one kind together. -/
def allRows (slots : List (NoiseSlot S)) : List (Row S) :=
  let rowsOf (kind : Nat → NoiseSlot S → List (Row S)) : List (Row S) :=
    slots.zipIdx.flatMap fun (s, k) => kind k s
  rowsOf dynamicsRows ++ rowsOf equalityRows ++ rowsOf inequalityRows ++ rowsOf costRows

end NoiseSlot

namespace DirectRows

variable [Zero S] [One S] [Neg S] [Add S]

/-- The row that keeps a column at an expression. A constant is the bound itself. -/
def equalRow (name : RowName) (c : Column) (e : Expr S) : Row S :=
  if e.isConstant then ⟨name, [.ofColumn c], some e.constantSum, some e.constantSum⟩
  else ⟨name, .ofColumn c :: e.neg, some 0, some 0⟩

/-- The row that keeps a column no lower than an expression. A constant is the bound itself. -/
def aboveRow (name : RowName) (c : Column) (e : Expr S) : Row S :=
  if e.isConstant then ⟨name, [.ofColumn c], some e.constantSum, none⟩
  else ⟨name, e ++ [Term.neg (.ofColumn c)], none, some 0⟩

/-- The rows in which the noise is a variable. -/
def rows (r : DirectRows S) : List (Row S) :=
  (r.dynamics.zipIdx.map fun (e, i) => equalRow (.dynamics i) (.nextState i) e) ++
  (r.equalities.zipIdx.map fun (e, n) => ⟨.equality n, e, some 0, some 0⟩) ++
  (r.inequalities.zipIdx.map fun (e, n) => ⟨.inequality n, e, none, some 0⟩) ++
  (match r.cost with
    | .single _ => []
    | .largest pieces =>
      pieces.zipIdx.map fun (e, n) => aboveRow (.costPiece n) .cost e)

end DirectRows

namespace Body

/-- Whether a column bounds the cost of the stage. -/
def hasCost : Body S → Bool
  | direct ⟨_, _, _, .single _⟩ => false
  | _ => true

variable [Zero S] [One S] [Neg S] [Add S]

def rows : Body S → List (Row S)
  | direct r => r.rows
  | slotted slots => NoiseSlot.allRows slots

/-- The cost of the stage as it enters the objective. -/
def cost : Body S → Expr S
  | direct ⟨_, _, _, .single e⟩ => e
  | _ => [.ofColumn .cost]

def mode : Body S → UpdateMode
  | direct _ => .rebuild
  | slotted _ => .slotReuse

end Body

namespace StageProgram

/-- The slots of a program; without slots if the noise is a variable. -/
def slots (p : StageProgram S) : List (NoiseSlot S) :=
  match p.body with
  | .direct _ => []
  | .slotted slots => slots

def dimStates (p : StageProgram S) : Nat :=
  p.stateSides.length

def name (p : StageProgram S) : String :=
  s!"stage{p.stage}"

/-- The column of coordinate `i` of the state that the cuts are written over. -/
def cutColumn (p : StageProgram S) (i : Nat) : Column :=
  match p.cutVariable with
  | .nextState => .nextState i
  | .state => .state i

def noiseAt [Zero S] (p : StageProgram S) (k : Nat) : S :=
  p.noise.getD k 0

variable [Zero S] [One S] [Neg S]

/-- The row that keeps the future cost above a cut. -/
def cutRow (p : StageProgram S) (n : Nat) (c : Cut S) : Row S :=
  ⟨.cut n,
    .constant c.intercept :: (c.slopes.zipIdx.map fun (s, i) => .single s (p.cutColumn i)) ++
      [Term.neg (.ofColumn .future)],
    none, some 0⟩

def stateRows (p : StageProgram S) : List (Row S) :=
  p.stateSides.zipIdx.map fun ((lo, hi), i) =>
    ⟨.stateFix i, [.ofColumn (.state i)], some lo, some hi⟩

def cutRows (p : StageProgram S) : List (Row S) :=
  p.cuts.zipIdx.map fun (c, n) => p.cutRow n c

/-- The quantity a program minimizes: the cost of the stage and the bound on the future cost. -/
def objective (p : StageProgram S) : Expr S :=
  p.body.cost ++ [.ofColumn .future]

/-- The columns of a program with their boxes, in the order in which they are listed, if all bounds
are usable. -/
def columns [Scalar S] [Sub S] [LE S] [DecidableLE S] [LT S] [DecidableLT S] (p : StageProgram S) :
    Except Fault (List (Column × Box S)) := do
  let stateBoxes ← p.stateBounds.mapM DeclaredBounds.box
  let controlBoxes ← p.controlBounds.mapM DeclaredBounds.box
  let futureBox : Box S := ⟨← lowerBound p.futureLower, none⟩
  return (stateBoxes.zipIdx.map fun (b, i) => (.state i, b)) ++
    (controlBoxes.zipIdx.map fun (b, j) => (.control j, b)) ++
    (stateBoxes.zipIdx.map fun (b, i) => (.nextState i, b)) ++
    [(.future, futureBox)] ++ (if p.body.hasCost then [(.cost, ⟨none, none⟩)] else [])

variable [Add S]

/-- All rows of a program in the order in which they are listed. -/
def rows (p : StageProgram S) : List (Row S) :=
  p.stateRows ++ p.body.rows ++ p.cutRows

variable [Mul S]

def value (p : StageProgram S) (point : Column → S) : S :=
  p.objective.eval p.noiseAt point

/-- Whether a point keeps to every box and every row of a program, and all bounds are usable. -/
def IsFeasible [Scalar S] [Sub S] [LE S] [DecidableLE S] [LT S] [DecidableLT S]
    (p : StageProgram S) (point : Column → S) : Prop :=
  (∃ columns, p.columns = .ok columns ∧
    ∀ cb ∈ columns, Within cb.2.lower cb.2.upper (point cb.1)) ∧
  ∀ r ∈ p.rows, r.Holds p.noiseAt point

end StageProgram

end Bellman
