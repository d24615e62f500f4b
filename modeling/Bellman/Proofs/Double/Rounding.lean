import Bellman.Proofs.Double.Parts

/-!
# Rounding

The sum or difference of two doubles is rounded to a significand of full length, as long as it is
not so small that there is none. Rounding never lowers the leading bit, and a significand that is
not too long is kept as it is.
-/

namespace Bellman.Double

open Float.Model Float.Model.UnpackedFloat

theorem mantissa_shiftRight (em : ExtendedMantissa) (n : Nat) :
    (em >>> n).mantissa = em.mantissa / 2 ^ n := by
  change (n.repeat ExtendedMantissa.shiftRightOne em).mantissa = _
  induction n with
  | zero => rw [Nat.pow_zero, Nat.div_one]; rfl
  | succ n ih =>
      change (n.repeat ExtendedMantissa.shiftRightOne em).mantissa / 2 = _
      rw [ih, Nat.div_div_eq_div_mul, ← Nat.pow_succ]

theorem mantissa_le_roundedMantissa (em : ExtendedMantissa) :
    em.mantissa ≤ em.roundedMantissa := by
  obtain ⟨m, round, sticky⟩ := em
  cases round <;> cases sticky <;>
    simp only [ExtendedMantissa.roundedMantissa, ExtendedMantissa.accuracy,
      Accuracy.roundToNearestEven] <;> omega

/-- The leading 53 bits of a significand that is not shorter. -/
theorem leading_bits {m : Nat} (hm : 52 ≤ m.log2) :
    2 ^ 52 ≤ m / 2 ^ (m.log2 - 52) ∧ m / 2 ^ (m.log2 - 52) < 2 ^ 53 := by
  have hpos : m ≠ 0 := by
    rintro rfl
    exact absurd hm (by decide)
  have hlow : 2 ^ m.log2 ≤ m := Nat.log2_self_le hpos
  have hhigh : m < 2 ^ (m.log2 + 1) := Nat.lt_log2_self
  constructor
  · rw [Nat.le_div_iff_mul_le (Nat.two_pow_pos _), ← Nat.pow_add]
    exact (congrArg (2 ^ ·) (show 52 + (m.log2 - 52) = m.log2 by omega)).trans_le hlow
  · rw [Nat.div_lt_iff_lt_mul (Nat.two_pow_pos _), ← Nat.pow_add]
    exact hhigh.trans_eq (congrArg (2 ^ ·) (show m.log2 + 1 = 53 + (m.log2 - 52) by omega))

/-- The exponent at which a significand that is not too small has full length. -/
theorem targetExponent_eq {m : Nat} {e : Int} (h : -1022 ≤ m.log2 + e) :
    Format.binary64.targetExponent (totalExponent m e) = m.log2 + e - 52 := by
  change max ((m.log2 : Int) + 1 + e - 53) (-1074) = _
  omega

theorem shiftToTargetExponent_eq {m : Nat} {e : Int} {a : Accuracy} (hm : 52 ≤ m.log2)
    (h : -1022 ≤ m.log2 + e) :
    shiftToTargetExponent Format.binary64 m e a =
      (ExtendedMantissa.ofMantissaAndAccuracy m a >>> (m.log2 - 52), e + (m.log2 - 52 : Nat)) := by
  simp only [shiftToTargetExponent, shiftToExponent, targetExponent_eq h]
  have hn : (m.log2 + e - 52 - e).toNat = m.log2 - 52 := by omega
  rw [hn]

variable {s : Sign} {m : Nat} {e : Int}

theorem exists_roundWithAccuracy (hm : 52 ≤ m.log2) (h : -1022 ≤ m.log2 + e) :
    ∃ m' e' hpos, roundWithAccuracy Format.binary64 s m e .exact = .finite s m' e' hpos ∧
      2 ^ 52 ≤ m' ∧ m' < 2 ^ 53 ∧ m.log2 + e - 52 ≤ e' ∧ (m < 2 ^ 53 → m' = m ∧ e' = e) := by
  obtain ⟨em, hem⟩ : ∃ em, em = ExtendedMantissa.ofMantissaAndAccuracy m .exact >>> (m.log2 - 52) :=
    ⟨_, rfl⟩
  obtain ⟨r, hr⟩ : ∃ r, r = em.roundedMantissa := ⟨_, rfl⟩
  have hmantissa : em.mantissa = m / 2 ^ (m.log2 - 52) := by
    rw [hem, mantissa_shiftRight]
    rfl
  have hlong : 2 ^ 52 ≤ r :=
    calc 2 ^ 52 ≤ m / 2 ^ (m.log2 - 52) := (leading_bits hm).1
      _ ≤ r := hmantissa ▸ hr ▸ mantissa_le_roundedMantissa em
  have hlog : 52 ≤ r.log2 := (Nat.le_log2 (by omega)).mpr hlong
  obtain ⟨hlow, hhigh⟩ := leading_bits hlog
  have hpos : 0 < r / 2 ^ (r.log2 - 52) := by omega
  have hround : roundWithAccuracy Format.binary64 s m e .exact =
      .finite s (r / 2 ^ (r.log2 - 52)) (e + (m.log2 - 52 : Nat) + (r.log2 - 52 : Nat)) hpos := by
    have hsecond := @shiftToTargetExponent_eq r (e + (m.log2 - 52 : Nat)) .exact hlog (by omega)
    simp only [roundWithAccuracy, shiftToTargetExponent_eq hm h, ← hem, ← hr, hsecond,
      mantissa_shiftRight]
    exact dif_neg hpos.ne'
  refine ⟨_, _, hpos, hround, hlow, hhigh, by omega, ?_⟩
  intro hshort
  have hfull : m.log2 = 52 := by
    have hlt := (Nat.log2_lt (by rintro rfl; exact absurd hm (by decide))).mpr hshort
    omega
  have hkept : r = m := by
    rw [hr, hem, hfull]
    rfl
  rw [hkept, hfull]
  exact ⟨Nat.div_one m, by omega⟩

theorem log2_shiftLeft (hm : 0 < m) (n : Nat) : (m <<< n).log2 = m.log2 + n := by
  have hlow : 2 ^ m.log2 ≤ m := Nat.log2_self_le hm.ne'
  have hhigh : m < 2 ^ (m.log2 + 1) := Nat.lt_log2_self
  rw [Nat.shiftLeft_eq, Nat.log2_eq_iff (by positivity), Nat.pow_add]
  refine ⟨Nat.mul_le_mul_right _ hlow, ?_⟩
  rw [show m.log2 + n + 1 = m.log2 + 1 + n by omega, Nat.pow_add _ _ n]
  exact Nat.mul_lt_mul_of_pos_right hhigh (Nat.two_pow_pos n)

theorem value_shiftLeft (n : Nat) : value s (m <<< n) (e - n) = value s m e := by
  have hsign : (s.apply (m <<< n : Nat) : Rat) = s.apply m * 2 ^ n := by
    cases s <;> simp [Sign.apply, Nat.shiftLeft_eq]
  rw [value, value, hsign, zpow_sub₀ two_ne_zero, zpow_natCast]
  field_simp

theorem value_shiftLeft_sub {k : Int} (hk : k ≤ e) :
    value s (m <<< (e - k).toNat) k = value s m e := by
  have hshift := @value_shiftLeft s m e (e - k).toNat
  rwa [show e - ((e - k).toNat : Int) = k by omega] at hshift

/-- A significand with a leading bit that is not too low is rounded to one of full length, with a
leading bit that is not lower. One that is not too long keeps its value. -/
theorem exists_round (hm : 0 < m) (h : -1022 ≤ m.log2 + e) :
    ∃ m' e' hpos, round Format.binary64 s m e = .finite s m' e' hpos ∧
      2 ^ 52 ≤ m' ∧ m' < 2 ^ 53 ∧ m.log2 + e - 52 ≤ e' ∧
      (m < 2 ^ 53 → value s m' e' = value s m e) := by
  have hround : round Format.binary64 s m e =
      roundWithAccuracy Format.binary64 s (m <<< (52 - m.log2)) (e - (52 - m.log2 : Nat))
        .exact := by
    have hn : (e - (m.log2 + e - 52)).toNat = 52 - m.log2 := by omega
    simp only [UnpackedFloat.round, targetExponent_eq h, decreaseExponent, hn]
  have hlog := log2_shiftLeft hm (52 - m.log2)
  obtain ⟨m', e', hpos, hrounded, hlow, hhigh, he', hexact⟩ :=
    @exists_roundWithAccuracy s (m <<< (52 - m.log2)) (e - (52 - m.log2 : Nat)) (by omega)
      (by omega)
  refine ⟨m', e', hpos, hround.trans hrounded, hlow, hhigh, by omega, ?_⟩
  intro hshort
  have hle : m.log2 < 53 := (Nat.log2_lt hm.ne').mpr hshort
  have hfits : m <<< (52 - m.log2) < 2 ^ 53 := by
    refine (Nat.log2_lt ?_).mp (by omega)
    rw [Nat.shiftLeft_eq]
    positivity
  obtain ⟨rfl, rfl⟩ := hexact hfits
  exact value_shiftLeft _

/-- What is not zero is rounded without its sign. -/
theorem exists_normalize {v k : Int} {zeroSign : Sign} (hv : v ≠ 0) :
    ∃ s', UnpackedFloat.normalize Format.binary64 v k zeroSign =
      UnpackedFloat.round Format.binary64 s' v.natAbs k := by
  rcases lt_or_gt_of_ne hv with hneg | hpos
  · refine ⟨.negative, ?_⟩
    simp only [UnpackedFloat.normalize, (compare_lt_iff_lt).mpr hneg]
    congr 1
    omega
  · refine ⟨.positive, ?_⟩
    simp only [UnpackedFloat.normalize, (compare_gt_iff_gt).mpr hpos]
    congr 1
    omega

end Bellman.Double
