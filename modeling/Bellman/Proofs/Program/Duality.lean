import Bellman.Proofs.Program.Feasible
import Mathlib.Algebra.Order.Ring.Defs
import Mathlib.Tactic.Linarith

/-!
# Prices of a program

Every row and every box of a program keeps a value in a range, and the two ends of a range have a
price each. Prices that leave nothing of the objective but a constant bound it from below. If they
do so by the objective of a feasible point, then that point is optimal, and the bound holds wherever
else the program is targeted to once the state rows are charged for the difference: the state enters
through the right-hand sides of its rows and nowhere else.
-/

namespace Bellman

open Data

variable {S : Type}

/-- The prices of the two ends of a range. -/
structure Price (S : Type) where
  lower : S
  upper : S

/-- An expression that is kept in a range. -/
structure Ranged (S : Type) where
  body : Expr S
  lower : Option S
  upper : Option S

/-- A row as an expression in a range. -/
def Row.ranged (r : Row S) : Ranged S :=
  ⟨r.body, r.lower, r.upper⟩

/-- The box of a column as an expression in a range. -/
def Ranged.ofBox [One S] (cb : Column × Box S) : Ranged S :=
  ⟨[.ofColumn cb.1], cb.2.lower, cb.2.upper⟩

namespace Price

variable [CommRing S]

/-- The price of the value itself: the rate at which the objective changes when both ends move. -/
def net (y : Price S) : S :=
  y.lower - y.upper

/-- What the prices make of the ends of a range. -/
def worth (r : Ranged S) (y : Price S) : S :=
  y.lower * r.lower.getD 0 - y.upper * r.upper.getD 0

/-- The ends of ranges that hold single values are worth what these values are worth. -/
theorem sum_worth_of_fixed {ranges : List (Ranged S)} {xs : List S}
    (h : List.Forall₂ (fun r x => r.lower = some x ∧ r.upper = some x) ranges xs)
    (prices : List (Price S)) :
    (List.zipWith worth ranges prices).sum = dot (prices.map net) xs := by
  rw [dot, total_eq_sum]
  induction h generalizing prices with
  | nil => simp
  | @cons r x _ _ hr _ ih =>
      cases prices with
      | nil => simp
      | cons y prices =>
          have hworth : worth r y = y.net * x := by
            simp only [worth, hr.1, hr.2, Option.getD_some, net, sub_mul]
          simp only [List.zipWith_cons_cons, List.map_cons, List.sum_cons, ih, hworth]

variable [LinearOrder S]

/-- Whether prices are not negative, and zero for an end that is open. -/
@[mk_iff]
structure Fits (r : Ranged S) (y : Price S) : Prop where
  lower_nonneg : 0 ≤ y.lower
  upper_nonneg : 0 ≤ y.upper
  lower_open : r.lower = none → y.lower = 0
  upper_open : r.upper = none → y.upper = 0

instance (r : Ranged S) (y : Price S) : Decidable (Fits r y) :=
  decidable_of_iff _ (fits_iff r y).symm

variable [IsStrictOrderedRing S]

/-- No value in a range is worth less than the ends of the range. -/
theorem Fits.worth_le {r : Ranged S} {y : Price S} {s : S} (h : Fits r y)
    (hs : Within r.lower r.upper s) : worth r y ≤ y.net * s := by
  have hlower : y.lower * r.lower.getD 0 ≤ y.lower * s := by
    cases hr : r.lower with
    | none => simp [h.lower_open hr]
    | some l =>
        rw [hr] at hs
        exact mul_le_mul_of_nonneg_left (hs.1 l rfl) h.lower_nonneg
  have hupper : y.upper * s ≤ y.upper * r.upper.getD 0 := by
    cases hr : r.upper with
    | none => simp [h.upper_open hr]
    | some u =>
        rw [hr] at hs
        exact mul_le_mul_of_nonneg_left (hs.2 u rfl) h.upper_nonneg
  calc
    worth r y ≤ y.lower * s - y.upper * s := sub_le_sub hlower hupper
    _ = y.net * s := (sub_mul _ _ _).symm

/-- The values in some ranges are worth no less together than the ends of the ranges. -/
theorem sum_worth_le {ranges : List (Ranged S)} {prices : List (Price S)} {w : Nat → S}
    {point : Column → S} (h : List.Forall₂ Fits ranges prices)
    (hpoint : ∀ r ∈ ranges, Within r.lower r.upper (r.body.eval w point)) :
    (List.zipWith worth ranges prices).sum ≤
      dot (prices.map net) (ranges.map fun r => r.body.eval w point) := by
  rw [dot, total_eq_sum]
  induction h with
  | nil => simp
  | cons hy _ ih =>
      obtain ⟨hfirst, hrest⟩ := List.forall_mem_cons.mp hpoint
      simp only [List.zipWith_cons_cons, List.map_cons, List.sum_cons]
      exact add_le_add (hy.worth_le hfirst) (ih hrest)

end Price

/-- A point of a program with prices for its state rows, and for its other rows and the boxes of its
columns. -/
structure Certificate (S : Type) where
  point : Column → S
  columns : List (Column × Box S)
  /-- What the prices leave of the objective. -/
  constant : S
  statePrices : List (Price S)
  prices : List (Price S)

namespace StageProgram

variable [CommRing S] [LinearOrder S]

/-- What is kept in a range other than the state: the other rows as they are read, and the columns.
-/
def ranges (limit : S) (p : StageProgram S) (columns : List (Column × Box S)) : List (Ranged S) :=
  ((p.body.rows ++ p.cutRows).map fun r => (r.asRead limit).ranged) ++ columns.map Ranged.ofBox

variable {limit : S} {p : StageProgram S} {columns : List (Column × Box S)} {state : List S}
variable {w : Nat → S} {point : Column → S}

omit [LinearOrder S] in
/-- The rows of the cuts stay when there are more. -/
theorem mem_cutRows_append {r : Row S} (h : r ∈ p.cutRows) (more : List (Cut S)) :
    r ∈ ({ p with cuts := p.cuts ++ more } : StageProgram S).cutRows := by
  simp only [cutRows, List.zipIdx_append, List.map_append]
  exact List.mem_append_left _ h

/-- All other ranges hold at a point that is feasible for a program with more cuts, in whatever
state. -/
theorem within_ranges_of_feasible [Scalar S] {more : List (Cut S)}
    (hcolumns : p.columns = .ok columns)
    (h : ({ p.setState state with cuts := p.cuts ++ more } : StageProgram S).IsFeasibleFor limit
      point) :
    ∀ r ∈ p.ranges limit columns, Within r.lower r.upper (r.body.eval p.noiseAt point) := by
  obtain ⟨⟨columns', hcolumns', hboxes⟩, hrows⟩ := h
  obtain rfl : columns = columns' := Except.ok.inj (hcolumns.symm.trans hcolumns')
  have hmem : ∀ r ∈ p.body.rows ++ p.cutRows,
      r ∈ ({ p.setState state with cuts := p.cuts ++ more } : StageProgram S).rows := by
    intro r hr
    rcases List.mem_append.mp hr with hbody | hcut
    · exact List.mem_append_left _ (List.mem_append_right _ hbody)
    · exact List.mem_append_right _ (mem_cutRows_append (p := p.setState state) hcut more)
  intro r hr
  simp only [ranges, List.mem_append, List.mem_map] at hr
  rcases hr with ⟨row, hrow, rfl⟩ | ⟨cb, hcb, rfl⟩
  · exact hrows row (hmem row (List.mem_append.mpr hrow))
  · simpa [Ranged.ofBox] using hboxes cb hcb

omit [LinearOrder S] in
/-- The rows of a state have that state as their value wherever they hold. -/
theorem map_eval_stateRows (hlength : p.stateSides.length = state.length)
    (hstate : ∀ (i : Nat) (x : S), state[i]? = some x → point (.state i) = x) :
    (p.stateRows.map fun r => r.body.eval w point) = state := by
  refine List.ext_getElem (by simp [stateRows, hlength]) fun i h₁ h₂ => ?_
  simp [stateRows, hstate i state[i] (List.getElem?_eq_getElem h₂)]

omit [LinearOrder S] in
/-- The ends of the rows of a state are worth what the state is worth. -/
theorem sum_worth_stateRows (hsides : p.stateSides = state.map fun s => (s, s))
    (prices : List (Price S)) :
    (List.zipWith Price.worth (p.stateRows.map Row.ranged) prices).sum =
      dot (prices.map Price.net) state := by
  refine Price.sum_worth_of_fixed (List.forall₂_of_length_eq_of_get ?_ fun i h₁ h₂ => ?_) prices
  · simp [stateRows, hsides]
  · simp [stateRows, hsides, Row.ranged]

end StageProgram

namespace Certificate

variable [Scalar S] [CommRing S] [LinearOrder S]

/-- What it takes of a certificate to prove a point optimal for a program as it is read: the point
is feasible, the prices are dual feasible, which is to say that they have the right signs and that
the objective is made up of them but for a constant, and the dual objective is that of the point. -/
structure Proves (limit : S) (p : StageProgram S) (c : Certificate S) : Prop where
  columns : p.columns = .ok c.columns
  feasible : p.IsFeasibleFor limit c.point
  statePrices : List.Forall₂ Price.Fits (p.stateRows.map Row.ranged) c.statePrices
  prices : List.Forall₂ Price.Fits (p.ranges limit c.columns) c.prices
  stationary : ∀ point, p.value point = c.constant +
    dot (c.statePrices.map Price.net) (p.stateRows.map fun r => r.body.eval p.noiseAt point) +
    dot (c.prices.map Price.net)
      ((p.ranges limit c.columns).map fun r => r.body.eval p.noiseAt point)
  tight : p.value c.point = c.constant +
    (List.zipWith Price.worth (p.stateRows.map Row.ranged) c.statePrices).sum +
    (List.zipWith Price.worth (p.ranges limit c.columns) c.prices).sum

variable {limit : S} {p : StageProgram S} {c : Certificate S}

theorem Proves.length_statePrices (h : c.Proves limit p) : c.statePrices.length = p.dimStates := by
  rw [← h.statePrices.length_eq]
  simp only [StageProgram.stateRows, List.length_map, List.length_zipIdx, StageProgram.dimStates]

variable [IsStrictOrderedRing S]

/-- Weak duality as the state varies: in any other state, and with more cuts, the objective is at
least the proved one plus what the prices of the state rows make of the difference. -/
theorem Proves.le_value (h : c.Proves limit p) {state state' : List S} {more : List (Cut S)}
    (hsides : p.stateSides = state.map fun s => (s, s)) (hlength : state'.length = state.length)
    {point : Column → S}
    (hpoint : ({ p.setState state' with cuts := p.cuts ++ more } : StageProgram S).IsFeasibleFor
      limit point) :
    p.value c.point - dot (c.statePrices.map Price.net) state +
      dot (c.statePrices.map Price.net) state' ≤ p.value point := by
  have hsides' : p.stateSides.length = state'.length := by
    rw [hsides, List.length_map, hlength]
  have hstate := (StageProgram.isFeasibleFor_setState_iff
    (p := { p with cuts := p.cuts ++ more })).mp hpoint
  have hothers := Price.sum_worth_le h.prices
    (StageProgram.within_ranges_of_feasible h.columns hpoint)
  have htight := h.tight
  rw [StageProgram.sum_worth_stateRows hsides] at htight
  have hvalue := h.stationary point
  rw [StageProgram.map_eval_stateRows hsides' hstate.1.state] at hvalue
  rw [htight, hvalue]
  linarith

end Certificate

end Bellman
