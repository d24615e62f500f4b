import Bellman.Lp.Basic

/-!
# The simplex search

Every row gets a variable of its own that stands for its sum. At any time some variables, as many as
there are rows, are expressed by the others, which stand still inside their ranges. The search first
exchanges variables until all ranges are kept, then until no exchange lowers the objective. Of
several possible exchanges the one with the least variable is made, which keeps the search from
going round in circles.

The search is not trusted: `LinearProgram.solve` passes on a verdict only if its evidence is
confirmed.
-/

namespace Bellman.Lp

/-- The state of a search. Variables are numbered, the columns first and then the rows. -/
structure Tableau where
  ranges : Array Range
  /-- The present value of every variable. -/
  values : Array Rat
  /-- The variables that are expressed by the others. -/
  basis : Array Nat
  /-- How each of them is expressed: a multiple of every variable, zero for those in the basis. -/
  rows : Array (Array Rat)
  /-- The objective as multiples of the variables outside the basis. -/
  objective : Array Rat

namespace Tableau

/-- A value inside a range, an end if there is one. -/
def resting (r : Range) : Rat :=
  (r.lower.or r.upper).getD 0

/-- Multiples of variables summed with the values they have. -/
def evaluate (values coefficients : Array Rat) : Rat :=
  (coefficients.zip values).foldl (fun sum (a, v) => if a = 0 then sum else sum + a * v) 0

/-- The tableau in which the rows are expressed by the columns. -/
def start (lp : LinearProgram) : Tableau :=
  let n := lp.columns.length
  let m := lp.constraints.length
  let widen (qs : List Rat) : Array Rat := (qs ++ List.replicate (n + m - qs.length) 0).toArray
  let rows := (lp.constraints.map fun c => widen c.coefficients).toArray
  let columnValues := (lp.columns.map resting).toArray
  { ranges := (lp.columns ++ lp.constraints.map (·.range)).toArray
    values := columnValues ++ rows.map (evaluate columnValues)
    basis := (Array.range m).map (n + ·)
    rows
    objective := widen lp.objective }

def range (t : Tableau) (v : Nat) : Range :=
  t.ranges.getD v ⟨none, none⟩

def value (t : Tableau) (v : Nat) : Rat :=
  t.values.getD v 0

def row (t : Tableau) (i : Nat) : Array Rat :=
  t.rows.getD i #[]

/-- The variable in a place of the basis. -/
def basic (t : Tableau) (i : Nat) : Nat :=
  t.basis.getD i 0

/-- Move a variable outside the basis by an amount, and the basis with it. -/
def move (t : Tableau) (v : Nat) (amount : Rat) : Tableau :=
  let moved := t.values.set! v (t.value v + amount)
  let values := (t.basis.zip t.rows).foldl
    (fun values (b, row) =>
      let a := row.getD v 0
      if a = 0 then values else values.set! b (values.getD b 0 + a * amount))
    moved
  { t with values }

/-- An expression in which variable `v` is replaced by its own expression. -/
def substitute (v : Nat) (expression row : Array Rat) : Array Rat :=
  let a := row.getD v 0
  if a = 0 then row
  else (row.set! v 0).zipWith (fun r e => if e = 0 then r else r + a * e) expression

/-- Exchange the variable in place `i` of the basis for variable `v`. -/
def exchange (t : Tableau) (i v : Nat) : Tableau :=
  let row := t.row i
  let pivot := row.getD v 0
  let expression := ((row.set! v 0).map fun a => if a = 0 then 0 else -a / pivot).set!
    (t.basic i) (1 / pivot)
  { t with
    basis := t.basis.set! i v
    rows := (t.rows.map (substitute v expression)).set! i expression
    objective := substitute v expression t.objective }

/-- How far a variable outside the basis may move up or down before it leaves its range. -/
def slack? (t : Tableau) (v : Nat) (up : Bool) : Option Rat :=
  if up then (t.range v).upper.map (· - t.value v) else (t.range v).lower.map (t.value v - ·)

/-- Whether a variable outside the basis can move up, or down. -/
def isFree (t : Tableau) (v : Nat) (up : Bool) : Bool :=
  match t.slack? v up with
  | none => true
  | some s => 0 < s

/-- The least variable that can move so that an expression changes in the wanted direction. -/
def entering? (t : Tableau) (expression : Array Rat) (up : Bool) : Option Nat :=
  (List.range expression.size).find? fun v =>
    let a := expression.getD v 0
    if a = 0 then false else t.isFree v (if 0 < a then up else !up)

/-- The place of the least variable of the basis that is outside its range, with the amount by which
it has to move. -/
def violated? (t : Tableau) : Option (Nat × Rat) :=
  let candidates := (List.range t.basis.size).filterMap fun i =>
    let b := t.basic i
    let q := t.value b
    match (t.range b).lower.filter (q < ·), (t.range b).upper.filter (· < q) with
    | some l, _ => some (b, i, l - q)
    | none, some u => some (b, i, u - q)
    | none, none => none
  (candidates.foldl (fun best c => match best with
    | none => some c
    | some b => if c.1 < b.1 then some c else some b) none).map (·.2)

/-- The multipliers of the rows in an expression that is zero or constant for all points. -/
def multipliers (lp : LinearProgram) (expression : Array Rat) : List Rat :=
  (List.range lp.constraints.length).map fun i => expression.getD (lp.columns.length + i) 0

def point (lp : LinearProgram) (t : Tableau) : List Rat :=
  (List.range lp.columns.length).map t.value

/-- Exchange variables until all ranges are kept; otherwise the multipliers of a contradiction. -/
def restore (lp : LinearProgram) : Nat → Tableau → Except Verdict Tableau
  | 0, _ => .error .undecided
  | fuel + 1, t =>
    match t.violated? with
    | none => .ok t
    | some (i, amount) =>
      let row := t.row i
      match t.entering? row (0 < amount) with
      | some v =>
        let t := t.move v (amount / row.getD v 0)
        restore lp fuel (t.exchange i v)
      | none =>
        let gap := row.set! (t.basic i) (-1)
        let sign : Rat := if 0 < amount then 1 else -1
        .error (.infeasible ((multipliers lp gap).map (sign * ·)))

/-- The place in the basis that stops a variable soonest, and how far it gets; of several that stop
it at once the one with the least variable. -/
def leaving? (t : Tableau) (v : Nat) (up : Bool) : Option (Nat × Rat) :=
  let candidates := (List.range t.basis.size).filterMap fun i =>
    let a := (t.row i).getD v 0
    if a = 0 then none
    else (t.slack? (t.basic i) (if 0 < a then up else !up)).map fun s =>
      (t.basic i, i, s / a.abs)
  (candidates.foldl (fun best c => match best with
    | none => some c
    | some b =>
      if c.2.2 < b.2.2 || (c.2.2 = b.2.2 && c.1 < b.1) then some c else some b) none).map (·.2)

/-- The direction in which the columns move when a variable outside the basis does. -/
def direction (lp : LinearProgram) (t : Tableau) (v : Nat) (up : Bool) : List Rat :=
  let sign : Rat := if up then 1 else -1
  (List.range lp.columns.length).map fun c =>
    if c = v then sign
    else match t.basis.findIdx? (· = c) with
      | some i => sign * (t.row i).getD v 0
      | none => 0

/-- Exchange variables until no exchange lowers the objective. -/
def improve (lp : LinearProgram) : Nat → Tableau → Verdict
  | 0, _ => .undecided
  | fuel + 1, t =>
    match t.entering? t.objective false with
    | none => .optimal (t.point lp) (multipliers lp t.objective)
    | some v =>
      let up : Bool := t.objective.getD v 0 < 0
      let signed (q : Rat) : Rat := if up then q else -q
      match t.slack? v up, t.leaving? v up with
      | none, none => .unbounded (t.point lp) (t.direction lp v up)
      | some own, none => improve lp fuel (t.move v (signed own))
      | none, some (i, far) => improve lp fuel ((t.move v (signed far)).exchange i v)
      | some own, some (i, far) =>
        if own ≤ far then improve lp fuel (t.move v (signed own))
        else improve lp fuel ((t.move v (signed far)).exchange i v)

end Tableau

namespace LinearProgram

/-- More exchanges than there are ways to choose a basis and put the other variables to rest. -/
def exchanges (lp : LinearProgram) : Nat :=
  Nat.pow 4 (lp.columns.length + lp.constraints.length)

def search (lp : LinearProgram) : Verdict :=
  match Tableau.restore lp lp.exchanges (Tableau.start lp) with
  | .error verdict => verdict
  | .ok t => t.improve lp lp.exchanges

def hasProperRanges (lp : LinearProgram) : Bool :=
  (lp.columns ++ lp.constraints.map (·.range)).all Range.isProper

/-- The verdict on a linear program, passed on only if its evidence is confirmed. -/
def solve (lp : LinearProgram) : Verdict :=
  if lp.hasProperRanges ∧ lp.confirms lp.search then lp.search else .undecided

/-- A verdict that is passed on has its evidence confirmed. -/
theorem confirms_solve (lp : LinearProgram) : lp.confirms lp.solve = true := by
  unfold solve
  split
  · next h => exact h.2
  · rfl

end LinearProgram

end Bellman.Lp
