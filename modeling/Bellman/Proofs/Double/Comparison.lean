import Bellman.Data.Number

/-!
# Comparisons of doubles

Two doubles that are numbers compare as one is below the other, equal to it or above it. What is not
a number compares with nothing: it is neither below a bound nor at it nor above it. So a check that
refuses what is below a bound lets more pass than one that asks for what is at or above it, and the
difference is exactly what is not a number.
-/

namespace Bellman

open Data Float.Model

namespace Double

variable {x y : Float}

/-- What kind of number a double is, with its sign, its significand and its exponent. -/
abbrev parts (x : Float) : UnpackedFloat :=
  x.toModel.unpack

theorem compare_eq_none_iff {a b : UnpackedFloat} :
    a.compare b = none ↔ a.isNaN = true ∨ b.isNaN = true := by
  cases a with
  | notANumber => exact iff_of_true (by cases b <;> rfl) (.inl rfl)
  | infinity s | zero s | finite s _ _ _ =>
      cases b with
      | notANumber => exact iff_of_true (by cases s <;> rfl) (.inr rfl)
      | infinity s' | zero s' | finite s' _ _ _ =>
          refine iff_of_false (by cases s <;> cases s' <;> nofun) ?_
          rintro (h | h) <;> cases h

theorem compare_swap (a b : UnpackedFloat) :
    b.compare a = (a.compare b).map Ordering.swap := by
  have hswap : ∀ (m m' : Nat) (e e' : Int),
      (compare e' e).then (compare m' m) = ((compare e e').then (compare m m')).swap := by
    intro m m' e e'
    rw [Ordering.swap_then, Int.compare_swap, Nat.compare_swap]
  cases a with
  | notANumber => cases b <;> rfl
  | infinity s =>
      cases b with
      | infinity s' => cases s <;> cases s' <;> rfl
      | _ => cases s <;> rfl
  | zero s =>
      cases b with
      | infinity s' | finite s' _ _ _ => cases s' <;> rfl
      | _ => rfl
  | finite s m e h =>
      cases b with
      | infinity s' => cases s' <;> rfl
      | finite s' m' e' h' =>
          cases s <;> cases s'
          · exact congrArg some (congrArg Ordering.swap (hswap m m' e e'))
          · rfl
          · rfl
          · exact congrArg some (hswap m m' e e')
      | _ => cases s <;> rfl

theorem lt_iff : x < y ↔ (parts x).compare (parts y) = some .lt := by
  change decide (x.toModel < y.toModel) = true ↔ _
  rw [decide_eq_true_iff]
  change ((parts x).compare (parts y) == some .lt) = true ↔ _
  exact beq_iff_eq

theorem le_iff :
    x ≤ y ↔ (parts x).compare (parts y) = some .lt ∨ (parts x).compare (parts y) = some .eq := by
  change decide (x.toModel ≤ y.toModel) = true ↔ _
  rw [decide_eq_true_iff]
  change (((parts x).compare (parts y)).any fun o => o.isLE) = true ↔ _
  rcases (parts x).compare (parts y) with _ | _ | _ | _ <;> decide

/-- A double is at or above a bound exactly if it is not below it and is a number. -/
theorem le_iff_not_lt (hx : x.isNaN = false) : x ≤ y ↔ ¬ y < x ∧ y.isNaN = false := by
  have hnone : (parts x).compare (parts y) = none ↔ y.isNaN = true := by
    rw [compare_eq_none_iff]
    exact or_iff_right (Bool.eq_false_iff.mp hx)
  rw [le_iff, lt_iff, compare_swap (parts x) (parts y), ← Bool.not_eq_true, ← hnone]
  rcases (parts x).compare (parts y) with _ | _ | _ | _ <;> decide

/-- A double is above a bound exactly if it is not at or below it and is a number. -/
theorem lt_iff_not_le (hx : x.isNaN = false) : x < y ↔ ¬ y ≤ x ∧ y.isNaN = false := by
  have hnone : (parts x).compare (parts y) = none ↔ y.isNaN = true := by
    rw [compare_eq_none_iff]
    exact or_iff_right (Bool.eq_false_iff.mp hx)
  rw [le_iff, lt_iff, compare_swap (parts x) (parts y), ← Bool.not_eq_true, ← hnone]
  rcases (parts x).compare (parts y) with _ | _ | _ | _ <;> decide

end Double

namespace Data.Number

/-- Whether a number is a double that is not a number. -/
def isNaN : Number → Bool
  | real x => x.isNaN
  | _ => false

/-- Whether a number is at least zero, which is false of a not-a-number. -/
def isNonnegative : Number → Bool
  | truth _ => true
  | whole i => 0 ≤ i
  | real x => 0 ≤ x

theorem isNonnegative_iff {n : Number} :
    n.isNonnegative = true ↔ n.isNegative = false ∧ n.isNaN = false := by
  cases n with
  | truth b => decide +revert
  | whole i =>
      simp only [isNonnegative, isNegative, isNaN, decide_eq_true_eq, decide_eq_false_iff_not,
        Int.not_lt, and_true]
  | real x =>
      simp only [isNonnegative, isNegative, isNaN, decide_eq_true_eq, decide_eq_false_iff_not]
      exact Double.le_iff_not_lt rfl

theorem isPositive_iff {n : Number} :
    n.isPositive = true ↔ n.isNonpositive = false ∧ n.isNaN = false := by
  cases n with
  | truth b => decide +revert
  | whole i =>
      simp only [isPositive, isNonpositive, isNaN, decide_eq_true_eq, decide_eq_false_iff_not,
        Int.not_le, and_true]
  | real x =>
      simp only [isPositive, isNonpositive, isNaN, decide_eq_true_eq, decide_eq_false_iff_not]
      exact Double.lt_iff_not_le rfl

end Data.Number

end Bellman
