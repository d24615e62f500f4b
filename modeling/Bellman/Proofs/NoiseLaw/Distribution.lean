import Bellman.Proofs.Double.Nonnegative
import Bellman.Proofs.Exact
import Bellman.Proofs.NoiseLaw
import Bellman.Proofs.NoiseLaw.Tolerance

/-!
# Laws as distributions

The probabilities of a law that is accepted are not below zero, and their sum is not farther from
one than the tolerance. If they all are numbers, then so is their sum, since numbers that are at
least zero add up to one that is, and the law is a distribution. But what is not a number is neither
below zero nor far from anything, so that a law with such a probability is accepted as well.
-/

namespace Bellman

open Data Double

namespace Data.Number

variable {a b c : Number} {x : Float}

theorem nonneg_of_toFloat? (ha : a.isNonnegative = true) (h : a.toFloat? = some x) : 0 ≤ x := by
  cases a with
  | truth b =>
      obtain rfl := Option.some.inj h
      cases b <;> decide
  | whole i =>
      obtain ⟨n, rfl⟩ := Int.eq_ofNat_of_zero_le (of_decide_eq_true ha)
      exact nonneg_of_ofInt? h
  | real y =>
      obtain rfl := Option.some.inj h
      exact of_decide_eq_true ha

theorem nonneg_of_toInt? {i : Int} (ha : a.isNonnegative = true) (h : a.toInt? = some i) :
    0 ≤ i := by
  cases a with
  | truth b =>
      obtain rfl := Option.some.inj h
      cases b <;> decide
  | whole j =>
      obtain rfl := Option.some.inj h
      exact of_decide_eq_true ha
  | real y => cases h

theorem isNonnegative_add (ha : a.isNonnegative = true) (hb : b.isNonnegative = true)
    (h : a.add? b = some c) : c.isNonnegative = true := by
  unfold add? at h
  split at h
  · next i j hi hj =>
      obtain rfl := Option.some.inj h
      exact decide_eq_true (Int.add_nonneg (nonneg_of_toInt? ha hi) (nonneg_of_toInt? hb hj))
  · obtain ⟨x, hx, h⟩ := Option.bind_eq_some_iff.mp h
    obtain ⟨y, hy, h⟩ := Option.bind_eq_some_iff.mp h
    obtain rfl := Option.some.inj h
    exact decide_eq_true (add_nonneg (nonneg_of_toFloat? ha hx) (nonneg_of_toFloat? hb hy))

end Data.Number

namespace NoiseLaw

/-- Numbers that are at least zero have a sum that is at least zero. -/
theorem isNonnegative_sumNumbers {ns : List Number} {total : Number}
    (hns : ∀ n ∈ ns, n.isNonnegative = true) (h : sumNumbers ns = .ok total) :
    total.isNonnegative = true := by
  unfold sumNumbers at h
  have hstart : (Number.whole 0).isNonnegative = true := rfl
  generalize Number.whole 0 = start at h hstart
  induction ns generalizing start with
  | nil =>
      obtain rfl := pure_eq_ok.mp h
      exact hstart
  | cons n ns ih =>
      obtain ⟨hn, hns⟩ := List.forall_mem_cons.mp hns
      rw [List.foldlM_cons] at h
      obtain ⟨next, hnext, h⟩ := bind_eq_ok.mp h
      refine ih hns next h ?_
      split at hnext
      · next hadd =>
          obtain rfl := Except.ok.inj hnext
          exact Number.isNonnegative_add hstart hn hadd
      · cases hnext

/-- A sum that is at least zero and passes is exactly a number close to one. -/
theorem exists_toExact {total : Number} {x : Float} (hnonneg : total.isNonnegative = true)
    (hx : total.toFloat = .ok x) (h : ¬ sumTolerance < (x - 1.0).abs) :
    ∃ q, total.toExact = .ok q ∧ |q - 1| ≤ 1 / 10 ^ 8 := by
  have hfloat : total.toFloat? = some x := by
    unfold Number.toFloat at hx
    split at hx
    · next hsome => exact hsome.trans (congrArg some (Except.ok.inj hx))
    · cases hx
  have hnumber : x.isNaN = false := by
    have hle := Number.nonneg_of_toFloat? hnonneg hfloat
    exact ((le_iff_not_lt rfl).mp hle).2
  obtain ⟨q, hq, hnear⟩ := near_of_not_lt hnumber h
  cases total with
  | truth b =>
      obtain rfl := Option.some.inj hfloat
      cases b with
      | false => exact absurd h (by decide)
      | true => exact ⟨1, rfl, by norm_num⟩
  | whole i =>
      obtain ⟨n, rfl⟩ := Int.eq_ofNat_of_zero_le (of_decide_eq_true hnonneg)
      have hn : n = 1 := by
        rcases Nat.lt_trichotomy n 1 with hn | hn | hn
        · obtain rfl := Nat.lt_one_iff.mp hn
          have hzero : Number.toFloat? (.whole (0 : Nat)) = some 0 := by decide
          obtain rfl := Option.some.inj (hzero.symm.trans hfloat)
          exact absurd h (by decide)
        · exact hn
        · have htwo : 2 ≤ q := two_le_of_ofInt? hn hfloat hq
          have hfar : 1 ≤ |q - 1| := (le_abs_self (q - 1)).trans' (by linarith)
          exact absurd (hfar.trans hnear) (by norm_num)
      subst hn
      exact ⟨1, rfl, by norm_num⟩
  | real y =>
      obtain rfl := Option.some.inj hfloat
      refine ⟨q, ?_, hnear⟩
      simp only [Number.toExact, Number.toInt?, hx, ok_bind, hq]

variable {S : Type} {law : NoiseLaw S}

/-- Probabilities that are at least zero and sum up to one, with a tolerance. -/
structure IsDistribution (law : NoiseLaw S) : Prop where
  nonnegative : ∀ p ∈ law.probabilities, p.isNonnegative = true
  sum : ∃ total q, sumNumbers law.probabilities = .ok total ∧ total.toExact = .ok q ∧
    |q - 1| ≤ 1 / 10 ^ 8

theorem isNegative_of_readProbabilities {probabilities : List Value} {ps : List Number}
    (h : readProbabilities probabilities = .ok ps) : ∀ p ∈ ps, p.isNegative = false := by
  intro p hp
  obtain ⟨v, -, hv⟩ := exists_of_mem_forall₂ (mapM_eq_ok.mp h) hp
  obtain ⟨n, -, hn⟩ := bind_eq_ok.mp hv
  split at hn
  · cases hn
  · next hnegative =>
      obtain rfl := pure_eq_ok.mp hn
      exact Bool.eq_false_iff.mpr hnegative

/-- A law is accepted, from vectors or from plain values. -/
def IsAccepted [Scalar S] (law : NoiseLaw S) : Prop :=
  (∃ support probabilities, of support probabilities = .ok law) ∨
    ∃ support probabilities, ofValues support probabilities = .ok law

theorem exists_of_of_isAccepted [Scalar S] (h : law.IsAccepted) :
    ∃ support probabilities, of support probabilities = .ok law := by
  rcases h with h | ⟨support, probabilities, h⟩
  · exact h
  · unfold ofValues at h
    obtain ⟨items, -, h⟩ := bind_eq_ok.mp h
    obtain ⟨values, -, h⟩ := bind_eq_ok.mp h
    split at h
    · exact ⟨_, _, h⟩
    · obtain ⟨ps, -, h⟩ := bind_eq_ok.mp h
      exact ⟨_, _, h⟩

/-- A law that is accepted has values of one length, and as many probabilities; these are a
distribution exactly if they all are numbers. -/
theorem isDistribution_iff [Scalar S] (h : law.IsAccepted) :
    law.support ≠ [] ∧ (∀ value ∈ law.support, value.length = law.dim) ∧
      law.probabilities.length = law.support.length ∧
      (law.IsDistribution ↔ ∀ p ∈ law.probabilities, p.isNaN = false) := by
  obtain ⟨support, probabilities, h⟩ := exists_of_of_isAccepted h
  obtain ⟨hempty, -, hcount, rfl, hps, total, x, htotal, hx, hnear⟩ := of_eq_ok.mp h
  refine ⟨hempty, length_of_of h, (length_of_mapM hps).trans hcount, ?_⟩
  constructor
  · intro hlaw p hp
    exact (Number.isNonnegative_iff.mp (hlaw.nonnegative p hp)).2
  · intro hnumbers
    have hnonneg : ∀ p ∈ law.probabilities, p.isNonnegative = true := by
      intro p hp
      exact Number.isNonnegative_iff.mpr
        ⟨isNegative_of_readProbabilities hps p hp, hnumbers p hp⟩
    obtain ⟨q, hq, hclose⟩ :=
      exists_toExact (isNonnegative_sumNumbers hnonneg htotal) hx hnear
    exact ⟨hnonneg, total, q, htotal, hq, hclose⟩

end NoiseLaw

namespace Stock

open NoiseLaw

/-- Two demands that are equally likely. -/
def halves : NoiseLaw ℚ where
  support := [[1], [3]]
  probabilities := [.real 0.5, .real 0.5]

theorem isDistribution_halves : halves.IsAccepted ∧ halves.IsDistribution := by
  have hdims : (distinct [1, 1]).length = 1 := by
    simp [distinct, List.mergeSort, List.eraseReps, List.eraseRepsBy, List.eraseRepsBy.loop]
  have haccepted : halves.IsAccepted := by
    refine .inl ⟨halves.support, halves.probabilities.map .num, of_eq_ok.mpr ?_⟩
    exact ⟨by decide, hdims, rfl, rfl, rfl, _, _, rfl, rfl, by decide⟩
  obtain ⟨-, -, -, hdistribution⟩ := isDistribution_iff haccepted
  refine ⟨haccepted, hdistribution.mpr ?_⟩
  intro p hp
  rcases List.mem_pair.mp hp with rfl | rfl <;> rfl

/-- A probability that is not a number is accepted, although it is not at least zero. -/
theorem probability_notANumber : ∃ law : NoiseLaw ℚ,
    ofValues (.list [.float 1]) (.list [.float (0 / 0)]) = .ok law ∧ ¬ law.IsDistribution := by
  have hprobabilities : (ofValues (S := ℚ) (.list [.float 1]) (.list [.float (0 / 0)])).toOption.any
      (fun law => law.probabilities.any fun p => !p.isNonnegative) = true := by
    decide +kernel
  obtain ⟨law, hlaw, hprobabilities⟩ := exists_of_any hprobabilities
  obtain ⟨p, hp, hnegative⟩ := List.any_eq_true.mp hprobabilities
  refine ⟨law, hlaw, fun hdistribution => ?_⟩
  rw [hdistribution.nonnegative p hp] at hnegative
  cases hnegative

end Stock

end Bellman
