import Bellman.Noise.Law
import Bellman.Proofs.Attempt

/-!
# Values of a noise and their places

All values of a law that is accepted have the same number of coordinates. A value is found in its
own place exactly if no value before it is close to it: the search ends at the first one that is.
-/

namespace Bellman

open Data

variable {S : Type}

section Closeness

variable [Zero S] [Sub S] [LE S] [DecidableLE S] {tolerance : S}

theorem isClose_self {a : S} (h : a ≤ a) : isClose tolerance a a = true := by
  simp only [isClose, h, decide_true, Bool.and_self, Bool.true_or]

theorem areClose_self {as : List S} (h : ∀ a ∈ as, a ≤ a) : areClose tolerance as as = true := by
  induction as with
  | nil => rfl
  | cons a as ih =>
      obtain ⟨ha, has⟩ := List.forall_mem_cons.mp h
      simp only [areClose, List.zip_cons_cons, List.all_cons, isClose_self ha, Bool.true_and]
      exact ih has

end Closeness

namespace NoiseLaw

theorem mem_eraseRepsBy_loop {n a : Nat} {ns seen : List Nat} (h : n ∈ a :: ns ∨ n ∈ seen) :
    n ∈ List.eraseRepsBy.loop (· == ·) a ns seen := by
  induction ns generalizing a seen with
  | nil =>
      rw [List.eraseRepsBy.loop, List.mem_reverse, List.mem_cons]
      exact h.imp_left List.mem_singleton.mp
  | cons b ns ih =>
      rw [List.eraseRepsBy.loop]
      by_cases hab : a = b
      · subst hab
        rw [beq_self_eq_true]
        apply ih (h.imp_left _)
        intro hn
        rcases List.mem_cons.mp hn with rfl | hn
        · exact List.mem_cons_self
        · exact hn
      · rw [beq_eq_false_iff_ne.mpr hab]
        apply ih
        rcases h with h | h
        · rcases List.mem_cons.mp h with rfl | h
          · exact .inr List.mem_cons_self
          · exact .inl h
        · exact .inr (List.mem_cons_of_mem _ h)

theorem mem_distinct {n : Nat} {ns : List Nat} (h : n ∈ ns) : n ∈ distinct ns := by
  have hsorted : n ∈ ns.mergeSort (· ≤ ·) := List.mem_mergeSort.mpr h
  unfold distinct List.eraseReps List.eraseRepsBy
  cases hns : ns.mergeSort (· ≤ ·) with
  | nil =>
      rw [hns] at hsorted
      cases hsorted
  | cons a as =>
      rw [hns] at hsorted
      exact mem_eraseRepsBy_loop (.inl hsorted)

/-- What it takes for a law to be accepted. -/
theorem of_eq_ok {support : List (List S)} {probabilities : List Value} {law : NoiseLaw S} :
    of support probabilities = .ok law ↔
      support ≠ [] ∧ (distinct (support.map List.length)).length = 1 ∧
      probabilities.length = support.length ∧ law.support = support ∧
      readProbabilities probabilities = .ok law.probabilities ∧
      ∃ sum x, sumNumbers law.probabilities = .ok sum ∧ sum.toFloat = .ok x ∧
        ¬ sumTolerance < (x - 1.0).abs := by
  constructor
  · intro h
    simp only [of] at h
    by_cases hempty : support.isEmpty = true
    · simp only [hempty, if_true] at h
      cases h
    simp only [hempty, Bool.false_eq_true, if_false] at h
    by_cases hone : (distinct (support.map List.length)).length = 1
    · simp only [hone, ne_eq, not_true, if_false] at h
      by_cases hcount : probabilities.length = support.length
      · simp only [hcount, not_true, if_false, bind_eq_ok] at h
        obtain ⟨ps, hps, sum, hsum, x, hx, h⟩ := h
        split at h
        · cases h
        · next hnear =>
            obtain rfl := pure_eq_ok.mp h
            exact ⟨mt List.isEmpty_iff.mpr hempty, hone, hcount, rfl, hps, sum, x, hsum, hx, hnear⟩
      · simp only [hcount, not_false_eq_true, if_true] at h
        cases h
    · simp only [hone, ne_eq, not_false_eq_true, if_true] at h
      cases h
  · rintro ⟨hempty, hone, hcount, rfl, hps, sum, x, hsum, hx, hnear⟩
    simp only [of, mt List.isEmpty_iff.mp hempty, hone, hcount, hps, hsum, hx, hnear, ne_eq,
      not_true, Bool.false_eq_true, if_false, ok_bind]
    rfl

/-- All values of a law that is accepted have the same number of coordinates. -/
theorem length_of_of {support : List (List S)} {probabilities : List Value} {law : NoiseLaw S}
    (h : of support probabilities = .ok law) : ∀ value ∈ law.support, value.length = law.dim := by
  obtain ⟨-, hone, -, hsupport, -⟩ := of_eq_ok.mp h
  obtain ⟨n, hn⟩ := List.length_eq_one_iff.mp hone
  have same : ∀ value ∈ support, value.length = n := by
    intro value hvalue
    have hmem := mem_distinct (List.mem_map_of_mem (f := List.length) hvalue)
    rw [hn] at hmem
    exact List.mem_singleton.mp hmem
  rw [dim, hsupport]
  intro value hvalue
  cases support with
  | nil => cases hvalue
  | cons first rest =>
      exact (same value hvalue).trans (same first List.mem_cons_self).symm

variable [Zero S] [Sub S] [LE S] [DecidableLE S]

/-- The first value that is close to one of the support is that one, or comes before it. -/
theorem exists_find? {law : NoiseLaw S} (limit : S) {k : Nat} {value : List S}
    (hvalue : law.support[k]? = some value) (hself : ∀ a ∈ value, a ≤ a) :
    ∃ i, law.find? limit value = some i ∧ (i = k ↔
      ∀ j < k, ∀ other, law.support[j]? = some other → areClose limit other value = false) := by
  obtain ⟨hk, rfl⟩ := List.getElem?_eq_some_iff.mp hvalue
  cases hfind : law.find? limit law.support[k] with
  | none =>
      have hnone := List.findIdx?_eq_none_iff.mp hfind _ (List.getElem_mem hk)
      rw [areClose_self hself] at hnone
      cases hnone
  | some i =>
      obtain ⟨hi, hclose, hfirst⟩ := List.findIdx?_eq_some_iff_getElem.mp hfind
      refine ⟨i, rfl, ?_, ?_⟩
      · rintro rfl j hj other hother
        obtain ⟨_, rfl⟩ := List.getElem?_eq_some_iff.mp hother
        exact Bool.eq_false_iff.mpr (hfirst j hj)
      · intro hnone
        rcases Nat.lt_trichotomy i k with hik | hik | hik
        · have hfar := hnone i hik _ (List.getElem?_eq_getElem hi)
          rw [hclose] at hfar
          cases hfar
        · exact hik
        · exact absurd (areClose_self hself) (hfirst k hik)

/-- The tolerance does not matter to values without coordinates. -/
theorem find?_of_dim_eq_zero {law : NoiseLaw S} (hzero : law.dim = 0)
    (hdim : ∀ value ∈ law.support, value.length = law.dim) (a b : S) (noise : List S) :
    law.find? a noise = law.find? b noise := by
  have hsame : ∀ value ∈ law.support, areClose a value noise = areClose b value noise := by
    intro value hvalue
    rw [hzero] at hdim
    rw [List.eq_nil_of_length_eq_zero (hdim value hvalue)]
    rfl
  unfold find?
  generalize law.support = support at hsame
  induction support with
  | nil => rfl
  | cons first rest ih =>
      obtain ⟨hfirst, hrest⟩ := List.forall_mem_cons.mp hsame
      rw [List.findIdx?_cons, List.findIdx?_cons, hfirst, ih hrest]

variable [Scalar S] [LT S] [DecidableLT S]

/-- Where a value of the support is found: in its own place exactly if no value before it is close
to it, and else in an earlier one. -/
theorem exists_indexOf {law : NoiseLaw S} {tolerance : Number} {limit : S} {k : Nat}
    {value : List S} (hlimit : Scalar.read (.num tolerance) = .ok limit) (hnonneg : ¬ limit < 0)
    (hzero : ¬ (0 : S) < 0) (hdim : ∀ value ∈ law.support, value.length = law.dim)
    (hvalue : law.support[k]? = some value) (hself : ∀ a ∈ value, a ≤ a) :
    ∃ i, law.indexOf value (.num tolerance) = .ok i ∧ (i = k ↔
      ∀ j < k, ∀ other, law.support[j]? = some other → areClose limit other value = false) := by
  obtain ⟨i, hfind, hiff⟩ := exists_find? limit hvalue hself
  refine ⟨i, ?_, hiff⟩
  have hread : (Value.num tolerance).toReal = .ok tolerance := rfl
  unfold indexOf
  by_cases hnone : law.dim = 0
  · simp only [hnone, if_true, pure_bind, hzero, if_false,
      find?_of_dim_eq_zero hnone hdim 0 limit, hfind]
    rfl
  · simp only [hnone, if_false, hread, ok_bind, hlimit, hnonneg, hfind]
    rfl

end NoiseLaw

end Bellman
