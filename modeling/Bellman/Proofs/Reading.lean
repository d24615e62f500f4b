import Bellman.Proofs.Attempt
import Bellman.Scalar

/-!
# Counts and vectors as they are read

A number that counts things is whole, and a vector that is read has as many coordinates as the
number counts.
-/

namespace Bellman

open Data

variable {S : Type}

theorem Number.sameValue_whole {n : Number} {i j : Int} (h : n.toInt? = some i) :
    n.sameValue (.whole j) = decide (i = j) := by
  cases n with
  | truth b =>
      obtain rfl := Option.some.inj h
      rfl
  | whole k =>
      obtain rfl := Option.some.inj h
      rfl
  | real x => cases h

theorem Number.isInRange_iff {n : Number} {i : Int} {length : Nat} (h : n.toInt? = some i) :
    n.isInRange length = true ↔ 0 ≤ i ∧ i < length := by
  cases n with
  | truth b =>
      obtain rfl := Option.some.inj h
      exact Bool.and_eq_true_iff.trans (and_congr decide_eq_true_iff decide_eq_true_iff)
  | whole k =>
      obtain rfl := Option.some.inj h
      exact Bool.and_eq_true_iff.trans (and_congr decide_eq_true_iff decide_eq_true_iff)
  | real x => cases h

theorem Number.isInRange_zero (n : Number) : n.isInRange 0 = false := by
  cases hi : n.toInt? with
  | some i =>
      rw [Bool.eq_false_iff, ne_eq, isInRange_iff hi]
      omega
  | none =>
      cases n with
      | real x =>
          refine (Option.any_eq_false _ _).mpr fun q _ => ?_
          by_cases hq : 0 ≤ q
          · simp [hq, Rat.not_lt.mpr hq]
          · simp [hq]
      | _ => cases hi

theorem Number.toInt?_eq_none_iff {n : Number} : n.toInt? = none ↔ ∃ x, n = .real x := by
  cases n <;> simp [Data.Number.toInt?]

theorem Number.toIndex_eq_ok_iff {n : Number} {i : Int} :
    n.toIndex = .ok i ↔ n.toInt? = some i := by
  unfold Number.toIndex
  cases n.toInt? <;> simp

theorem Number.eq_of_isCount {n : Number} {count length : Nat} (hcount : n.toCount = .ok count)
    (hlength : (Value.num n).isCount length = true) : length = count := by
  unfold Number.toCount at hcount
  cases hi : n.toInt? with
  | none =>
      simp only [hi] at hcount
      cases hcount
  | some i =>
      simp only [hi, Except.ok.injEq] at hcount
      simp only [Value.isCount, Value.sameKey, Number.sameValue_whole hi,
        decide_eq_true_eq] at hlength
      rw [← hcount, hlength, Int.toNat_natCast]

/-- No value is two different counts. -/
theorem Value.eq_of_isCount {v : Value} {m n : Nat} (hm : v.isCount m = true)
    (hn : v.isCount n = true) : m = n := by
  cases v with
  | num a =>
      simp only [Value.isCount, Value.sameKey] at hm hn
      cases a with
      | real x =>
          change (Decimal.toRat? x == some ((m : Int) : Rat)) = true at hm
          change (Decimal.toRat? x == some ((n : Int) : Rat)) = true at hn
          have hrat : some ((m : Int) : Rat) = some ((n : Int) : Rat) :=
            (eq_of_beq hm).symm.trans (eq_of_beq hn)
          exact_mod_cast Option.some.inj hrat
      | truth b =>
          rw [Number.sameValue_whole (n := .truth b) rfl, decide_eq_true_eq] at hm hn
          exact Int.ofNat_inj.mp (hm.symm.trans hn)
      | whole i =>
          rw [Number.sameValue_whole (n := .whole i) rfl, decide_eq_true_eq] at hm hn
          exact Int.ofNat_inj.mp (hm.symm.trans hn)
  | _ => simp only [Value.isCount, Value.sameKey, Bool.false_eq_true] at hm

/-- A vector that is read has the number of coordinates that was asked for. -/
theorem Scalar.isCount_of_readVector [Scalar S] {what : String} {dim v : Value} {xs : List S}
    (h : readVector what dim v = .ok xs) : dim.isCount xs.length = true := by
  simp only [readVector, bind_eq_ok] at h
  obtain ⟨items, -, ys, -, h⟩ := h
  split at h
  · next hcount =>
      obtain rfl := Except.ok.inj h
      exact hcount
  · cases h

/-- A vector that was read is read again where another value asks for as many coordinates. -/
theorem Scalar.readVector_of_isCount [Scalar S] {what what' : String} {dim dim' v : Value}
    {xs : List S} (h : readVector what dim v = .ok xs) (hcount : dim'.isCount xs.length = true) :
    readVector what' dim' v = .ok xs := by
  simp only [readVector, bind_eq_ok] at h ⊢
  obtain ⟨items, hitems, ys, hys, h⟩ := h
  split at h
  · obtain rfl := Except.ok.inj h
    exact ⟨items, hitems, ys, hys, if_pos hcount⟩
  · cases h

/-- A vector is read back as it was written, if its coordinates are. -/
theorem Scalar.readVector_writeVector [Scalar S] {what : String} {dim : Value} {xs : List S}
    (hback : ∀ x ∈ xs, Scalar.read (Scalar.write x) = .ok x)
    (hcount : dim.isCount xs.length = true) :
    readVector what dim (writeVector xs) = .ok xs := by
  simp only [readVector, bind_eq_ok]
  refine ⟨xs.map write, rfl, xs, mapM_eq_ok.mpr ?_, if_pos hcount⟩
  exact List.forall₂_map_left_iff.mpr (List.forall₂_same.mpr hback)

theorem Value.isCount_natCast (n : Nat) : (Value.int n).isCount n = true := by
  simp only [Value.isCount, Value.sameKey, Number.sameValue_whole (n := .whole n) rfl, decide_true]

theorem Scalar.length_of_readVector [Scalar S] {what : String} {n : Nat} {v : Value} {xs : List S}
    (h : readVector what (.int n) v = .ok xs) : xs.length = n :=
  Number.eq_of_isCount (n := .whole n) rfl (isCount_of_readVector h)

end Bellman
