import Bellman.ValueFunction
import Mathlib.Order.MinMax

/-!
# The largest cut

In a linear order the value of a list of cuts at a state is the least upper bound of the values of
the cuts. Together with a bound from below it is a number even where there are no cuts.
-/

namespace Bellman

variable {S : Type}

theorem larger_eq_max [LinearOrder S] (a b : S) : larger a b = max a b := by
  unfold larger
  split
  · next h => exact (max_eq_right h.le).symm
  · next h => exact (max_eq_left (le_of_not_gt h)).symm

theorem foldl_larger_le_iff [LinearOrder S] {first bound : S} {rest : List S} :
    rest.foldl larger first ≤ bound ↔ ∀ s ∈ first :: rest, s ≤ bound := by
  induction rest generalizing first with
  | nil => simp
  | cons s rest ih =>
      rw [List.foldl_cons, ih, larger_eq_max]
      simp only [List.forall_mem_cons, max_le_iff, and_assoc]

namespace ValueFunction

variable [Zero S] [Add S] [Mul S] [LinearOrder S] {v : ValueFunction S} {z : List S}

/-- A number is above the value at a state exactly if it is above all cuts there. -/
theorem evaluate?_le_iff {bound : S} :
    (∀ e ∈ v.evaluate? z, e ≤ bound) ↔ ∀ c ∈ v.cuts, c.evaluate z ≤ bound := by
  rw [← List.forall_mem_map (P := (· ≤ bound))]
  unfold evaluate?
  split
  · next h => simp [h]
  · next first rest h =>
      rw [h, ← foldl_larger_le_iff]
      simp

/-- The value at a state, or a bound from below if that is larger or there are no cuts. -/
def boundedBelow (v : ValueFunction S) (lower : S) (z : List S) : S :=
  match v.evaluate? z with
  | none => lower
  | some e => max lower e

theorem boundedBelow_le_iff {lower bound : S} :
    v.boundedBelow lower z ≤ bound ↔
      lower ≤ bound ∧ ∀ c ∈ v.cuts, c.evaluate z ≤ bound := by
  rw [← evaluate?_le_iff, boundedBelow]
  split
  · next h => simp [h]
  · next e h => simp [h]

end ValueFunction

end Bellman
