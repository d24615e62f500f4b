import Bellman.Noise.Law
import Bellman.Proofs.Double.Rounding

/-!
# The tolerance of a sum

A sum passes if it is not farther from one than the tolerance, which is a double, and its difference
to one is rounded before it is looked at. Yet the sum is exactly within the decimal that the
tolerance is written as. A double that is not close to one in size is at least half of one away, and
rounding does not lower the leading bit of the difference. Close to one the difference is a multiple
of the last bit before one, so that it is not rounded, and no such multiple lies between the decimal
and its double.
-/

namespace Bellman.NoiseLaw

open Float.Model Float.Model.UnpackedFloat Decimal Double

theorem parts_one : parts 1.0 = .finite .positive (2 ^ 52) (-52) (by decide) := by rfl

theorem parts_tolerance :
    parts sumTolerance = .finite .positive 6044629098073146 (-79) (by decide) := by rfl

variable {s : Sign} {m : Nat} {e : Int}

/-- The common exponent of a double and one. -/
def commonExponent (e : Int) : Int :=
  min e (-52)

/-- The difference of a double to one, as a multiple of the power with their common exponent. -/
def gap (s : Sign) (m : Nat) (e : Int) : Int :=
  s.apply (m <<< (e - commonExponent e).toNat : Nat) -
    (2 ^ 52 <<< (-52 - commonExponent e).toNat : Nat)

theorem sub_one (h : 0 < m) :
    sub Format.binary64 (.finite s m e h) (parts 1.0) =
      UnpackedFloat.normalize Format.binary64 (gap s m e) (commonExponent e) .positive := by
  rw [parts_one]
  rfl

theorem gap_mul (s : Sign) (m : Nat) (e : Int) :
    (gap s m e : Rat) * 2 ^ commonExponent e = value s m e - 1 := by
  have hx := @value_shiftLeft_sub s m e (commonExponent e) (min_le_left _ _)
  have hone := @value_shiftLeft_sub .positive (2 ^ 52) (-52) (commonExponent e) (min_le_right _ _)
  have hvalue : value .positive (2 ^ 52) (-52) = 1 := by
    norm_num [value, Sign.apply]
  rw [hvalue] at hone
  rw [← hx, ← hone, gap, Int.cast_sub, sub_mul]
  rfl

/-- A double that is not close to one in size is at least half of one away from it. -/
theorem leading_gap (hm : m < 2 ^ 53) :
    -53 ≤ commonExponent e ∨ -1 ≤ ((gap s m e).natAbs.log2 : Int) + commonExponent e := by
  by_cases he : -53 ≤ e
  · left
    exact le_min he (by decide)
  right
  obtain ⟨n, rfl⟩ : ∃ n : Nat, e = -54 - n := ⟨(-54 - e).toNat, by omega⟩
  have hcommon : commonExponent (-54 - n) = -54 - n := min_eq_left (by omega)
  have hone : 2 ^ 52 <<< (-52 - (-54 - (n : Int))).toNat = 2 * 2 ^ (53 + n) := by
    rw [Nat.shiftLeft_eq, ← Nat.pow_add, ← Nat.pow_succ']
    congr 1
    omega
  have hgap : gap s m (-54 - n) = s.apply m - (2 * 2 ^ (53 + n) : Nat) := by
    rw [gap, hcommon, hone, Int.sub_self]
    rfl
  have hlarge : 2 ^ 53 ≤ 2 ^ (53 + n) := Nat.pow_le_pow_right (by decide) (by omega)
  have hbits : 2 ^ (53 + n) ≤ (gap s m (-54 - n)).natAbs := by
    rw [hgap]
    cases s <;> simp only [Sign.apply] <;> omega
  have hlog : 53 + n ≤ (gap s m (-54 - n)).natAbs.log2 :=
    (Nat.le_log2 (by omega)).mpr hbits
  rw [hcommon]
  omega

/-- A significand of full length that does not exceed the tolerance has no larger exponent. -/
theorem le_of_not_lt {y : Float} {s' : Sign} {m' : Nat} {e' : Int} {hpos : 0 < m'}
    (hlow : 2 ^ 52 ≤ m') (hhigh : m' < 2 ^ 53) (he : -1074 ≤ e')
    (hy : parts y = (pack (.finite s' m' e' hpos)).unpack) (h : ¬ sumTolerance < y.abs) :
    e' < -79 ∨ e' = -79 ∧ m' ≤ 6044629098073146 := by
  rw [lt_iff, parts_abs, hy, parts_tolerance, unpack_pack_normal hpos hlow hhigh he] at h
  by_cases hfits : e' ≤ 971
  · rw [if_pos hfits, UnpackedFloat.abs, unpack_pack_normal hpos hlow hhigh he, if_pos hfits] at h
    simp only [UnpackedFloat.compare, Option.some.injEq, Ordering.then_eq_lt, compare_lt_iff_lt,
      compare_eq_iff_eq, not_or, not_and] at h
    omega
  · rw [if_neg hfits] at h
    refine (h ?_).elim
    cases s' <;> rfl

theorem value_le_tolerance (hm : m < 2 ^ 53)
    (h : e < -79 ∨ e = -79 ∧ m ≤ 6044629098073146) :
    (m : Rat) * 2 ^ e ≤ 6044629098073146 * 2 ^ (-79 : Int) := by
  rcases h with he | ⟨rfl, hle⟩
  · have hpow : (2 : Rat) ^ e ≤ 2 ^ (-80 : Int) := zpow_le_zpow_right₀ one_le_two (by omega)
    have hcast : (m : Rat) ≤ 2 ^ 53 := by exact_mod_cast hm.le
    calc (m : Rat) * 2 ^ e ≤ 2 ^ 53 * 2 ^ (-80 : Int) := by gcongr
      _ ≤ 6044629098073146 * 2 ^ (-79 : Int) := by norm_num
  · gcongr
    exact_mod_cast hle

/-- What is a multiple of the last bit before one and within the tolerance is within its decimal. -/
theorem multiple_le {n : Nat} {k : Int} (hk : -53 ≤ k)
    (h : (n : Rat) * 2 ^ k ≤ 6044629098073146 * 2 ^ (-79 : Int)) :
    (n : Rat) * 2 ^ k ≤ 1 / 10 ^ 8 := by
  obtain ⟨j, rfl⟩ : ∃ j : Nat, k = -53 + j := ⟨(k + 53).toNat, by omega⟩
  have hmul : (n : Rat) * 2 ^ (-53 + j : Int) = (n * 2 ^ j : Nat) * 2 ^ (-53 : Int) := by
    rw [zpow_add₀ two_ne_zero, zpow_natCast]
    push_cast
    ring
  rw [hmul] at h ⊢
  have hcount : n * 2 ^ j ≤ 90071992 := by
    have hle : ((n * 2 ^ j : Nat) : Rat) ≤ 6044629098073146 / 2 ^ 26 := by
      norm_num at h ⊢
      linarith
    have hlt : ((n * 2 ^ j : Nat) : Rat) < 90071993 := hle.trans_lt (by norm_num)
    exact Nat.lt_succ_iff.mp (by exact_mod_cast hlt)
  calc ((n * 2 ^ j : Nat) : Rat) * 2 ^ (-53 : Int) ≤ 90071992 * 2 ^ (-53 : Int) := by
        gcongr
        exact_mod_cast hcount
    _ ≤ 1 / 10 ^ 8 := by norm_num

/-- A finite double that passes as a sum is exactly as close to one as it is said to be. -/
theorem near_of_parts {x : Float} {h : 0 < m} (hx : parts x = .finite s m e h) (hm : m < 2 ^ 53)
    (hnear : ¬ sumTolerance < (x - 1.0).abs) : |value s m e - 1| ≤ 1 / 10 ^ 8 := by
  rw [← gap_mul]
  rcases eq_or_ne (gap s m e) 0 with hzero | hne
  · rw [hzero]
    norm_num
  obtain ⟨s', hround⟩ := @exists_normalize _ (commonExponent e) .positive hne
  have hgap : 0 < (gap s m e).natAbs := Int.natAbs_pos.mpr hne
  have hleading := @leading_gap s m e hm
  obtain ⟨m', e', hpos, hrounded, hlow, hhigh, he', hexact⟩ :=
    @exists_round s' _ (commonExponent e) hgap (by omega)
  have hparts : parts (x - 1.0) = (pack (.finite s' m' e' hpos)).unpack := by
    rw [parts_sub, hx, sub_one, hround, hrounded]
  have hsmall := le_of_not_lt hlow hhigh (by omega) hparts hnear
  -- the leading bit is so low that the difference has not been rounded
  have hcommon : -53 ≤ commonExponent e := by omega
  have hshort : (gap s m e).natAbs.log2 < 53 := by omega
  have hvalue := congrArg (|·|) (hexact ((Nat.log2_lt hgap.ne').mp hshort))
  simp only [abs_value] at hvalue
  have hpow : (0 : Rat) < 2 ^ commonExponent e := zpow_pos two_pos _
  calc |(gap s m e : Rat) * 2 ^ commonExponent e|
      = (gap s m e).natAbs * 2 ^ commonExponent e := by
        rw [abs_mul, abs_of_pos hpow, Nat.cast_natAbs, Int.cast_abs]
    _ ≤ 1 / 10 ^ 8 := multiple_le hcommon (hvalue ▸ value_le_tolerance hhigh hsmall)

/-- A double that passes as a sum is close to one. -/
theorem near_of_not_lt {x : Float} (hx : x.isNaN = false) (h : ¬ sumTolerance < (x - 1.0).abs) :
    ∃ q, toRat? x = some q ∧ |q - 1| ≤ 1 / 10 ^ 8 := by
  have hreads := reads x
  cases hparts : parts x with
  | notANumber =>
      change (parts x).isNaN = false at hx
      rw [hparts] at hx
      cases hx
  | infinity s =>
      rw [lt_iff, parts_abs, parts_sub, hparts] at h
      refine (h ?_).elim
      cases s <;> rfl
  | zero s =>
      rw [lt_iff, parts_abs, parts_sub, hparts] at h
      refine (h ?_).elim
      cases s <;> rfl
  | finite s m e hpos =>
      rw [hparts] at hreads
      generalize toRat? x = q at hreads
      cases hreads with
      | finite _ hm => exact ⟨_, rfl, near_of_parts hparts hm h⟩

end Bellman.NoiseLaw
