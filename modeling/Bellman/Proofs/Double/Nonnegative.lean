import Bellman.Proofs.Double.Rounding

/-!
# Doubles that are at least zero

Doubles that are at least zero have a sum that is at least zero, however large they are: there is no
way from them to what is not a number. The double closest to a natural number is at least zero, and
it is at least two if the number is.
-/

namespace Bellman.Double

open Float.Model Float.Model.UnpackedFloat Decimal

theorem nonneg_iff {x : Float} : 0 ≤ x ↔ IsNonnegative (parts x) := by
  have hzero : parts 0 = .zero .positive := rfl
  rw [le_iff, hzero]
  rcases parts x with s | _ | s | ⟨s, m, e, h⟩
  · cases s <;> simp [UnpackedFloat.compare, IsNonnegative]
  · simp [UnpackedFloat.compare, IsNonnegative]
  · simp [UnpackedFloat.compare, IsNonnegative]
  · cases s <;> simp [UnpackedFloat.compare, IsNonnegative]

theorem isNonnegative_round (spec : Format) (m : Nat) (e : Int) :
    IsNonnegative (UnpackedFloat.round spec .positive m e) := by
  simp only [UnpackedFloat.round, roundWithAccuracy]
  split
  · trivial
  · rfl

theorem isNonnegative_normalize (spec : Format) (m : Nat) (e : Int) :
    IsNonnegative (UnpackedFloat.normalize spec m e .positive) := by
  simp only [UnpackedFloat.normalize]
  split
  · next h =>
      have hlt := compare_lt_iff_lt.mp h
      omega
  · trivial
  · exact isNonnegative_round _ _ _

theorem isNonnegative_add {spec : Format} {a b : UnpackedFloat} (ha : IsNonnegative a)
    (hb : IsNonnegative b) : IsNonnegative (UnpackedFloat.add spec a b) := by
  cases a with
  | notANumber => cases ha
  | infinity s =>
      obtain rfl := ha
      cases b with
      | notANumber => cases hb
      | infinity s' =>
          obtain rfl := hb
          rfl
      | _ => rfl
  | zero s =>
      cases b with
      | notANumber => cases hb
      | zero s' => cases s <;> cases s' <;> trivial
      | _ => exact hb
  | finite s m e h =>
      obtain rfl := ha
      cases b with
      | notANumber => cases hb
      | infinity s' => exact hb
      | zero s' => rfl
      | finite s' m' e' h' =>
          obtain rfl := hb
          exact isNonnegative_normalize _ _ _

theorem add_nonneg {x y : Float} (hx : 0 ≤ x) (hy : 0 ≤ y) : 0 ≤ x + y :=
  nonneg_iff.mpr <| isNonnegative_unpack_pack <|
    isNonnegative_add (nonneg_iff.mp hx) (nonneg_iff.mp hy)

/-- A double keeps its bits, unless they are those of what is not a number. -/
theorem toBits_ofBits {bits : UInt64} (h : (Float.ofBits bits).isNaN = false) :
    (Float.ofBits bits).toBits = bits := by
  have hpack := @pack_unpack Format.binary64 bits.toBitVec (by decide)
  split at hpack
  · have hnan : (UnpackedFloat.unpack Format.binary64 (UnpackedFloat.pack Format.binary64
        (UnpackedFloat.unpack Format.binary64 bits.toBitVec))).isNaN = false := h
    rw [hpack, unpack_packedNaN] at hnan
    cases hnan
  · exact UInt64.toBitVec_inj.mp hpack

section Nearest

/-- A ratio divided by a power of two. -/
def scaled (num den : Nat) (e : Int) : Nat × Nat :=
  if e < 0 then (num * twoTo e.natAbs, den) else (num, den * twoTo e.natAbs)

/-- The exponent at which a ratio has a significand of full length. -/
def fit (num den : Nat) : Int :=
  let guess : Int := (num.log2 : Int) - den.log2 - 52
  if (scaled num den guess).1 / (scaled num den guess).2 < twoTo 52 then guess - 1 else guess

/-- The significand of a ratio, rounded. -/
def significand (num den : Nat) : Nat :=
  let e := max (fit num den) (-1074)
  roundHalfEven (scaled num den e).1 (scaled num den e).2

/-- The bits of the double closest to a ratio, but for its sign. -/
def magnitude (num den : Nat) : Nat :=
  if num = 0 then 0
  else if significand num den < twoTo 52 then significand num den
  else min ((max (fit num den) (-1074) + 1074).toNat * twoTo 52 + significand num den)
    (2047 * twoTo 52)

theorem nearest_eq (negative : Bool) (num den : Nat) : nearest negative num den =
    Float.ofBits (UInt64.ofNat ((if negative then twoTo 63 else 0) + magnitude num den)) :=
  rfl

theorem magnitude_le (num den : Nat) : magnitude num den ≤ 2047 * twoTo 52 := by
  unfold magnitude
  split
  · exact Nat.zero_le _
  split
  · next h => exact h.le.trans (Nat.le_mul_of_pos_left _ (by decide))
  · exact Nat.min_le_right _ _

theorem le_roundHalfEven (num den : Nat) : num / den ≤ roundHalfEven num den := by
  unfold roundHalfEven
  grind

theorem le_scaled {n : Nat} (hn : 0 < n) :
    twoTo 52 ≤ (scaled n 1 (n.log2 - 52)).1 / (scaled n 1 (n.log2 - 52)).2 := by
  have hlow : 2 ^ n.log2 ≤ n := Nat.log2_self_le hn.ne'
  unfold scaled
  split
  · next h =>
    have hshift : n.log2 + ((n.log2 : Int) - 52).natAbs = 52 := by omega
    rw [Nat.div_one]
    calc twoTo 52 = 2 ^ n.log2 * 2 ^ ((n.log2 : Int) - 52).natAbs := by
          rw [← Nat.pow_add, hshift]
      _ ≤ n * twoTo ((n.log2 : Int) - 52).natAbs := Nat.mul_le_mul_right _ hlow
  · next h =>
    have hshift : ((n.log2 : Int) - 52).natAbs = n.log2 - 52 := by omega
    rw [Nat.one_mul, hshift]
    exact (leading_bits (show 52 ≤ n.log2 by omega)).1

/-- A number from two on is no smaller than two in the bits of the double closest to it. -/
theorem le_magnitude {n : Nat} (hn : 2 ≤ n) : 1024 * twoTo 52 ≤ magnitude n 1 := by
  have hlog : 1 ≤ n.log2 := (Nat.le_log2 (by omega)).mpr hn
  have hscaled := @le_scaled n (by omega)
  have hfit : fit n 1 = n.log2 - 52 := by
    have hone : Nat.log2 1 = 0 := rfl
    simp only [fit, hone, Int.natCast_zero, Int.sub_zero, if_neg (Nat.not_lt.mpr hscaled)]
  have hmax : max (fit n 1) (-1074) = n.log2 - 52 := by omega
  have hsignificand : twoTo 52 ≤ significand n 1 := by
    simp only [significand, hmax]
    exact hscaled.trans (le_roundHalfEven _ _)
  unfold magnitude
  rw [if_neg (by omega), if_neg (Nat.not_lt.mpr hsignificand), hmax]
  refine le_min ?_ (Nat.mul_le_mul_right _ (by decide))
  calc 1024 * twoTo 52 = 1023 * twoTo 52 + twoTo 52 := by decide
    _ ≤ _ := Nat.add_le_add (Nat.mul_le_mul_right _ (by omega)) hsignificand

end Nearest

variable {n : Nat} {x : Float}

theorem isNaN_of_isFinite (h : x.isFinite = true) : x.isNaN = false := by
  change (parts x).isFinite = true at h
  change (parts x).isNaN = false
  cases hparts : parts x with
  | notANumber =>
      rw [hparts] at h
      cases h
  | _ => rfl

theorem toBits_of_ofInt? (h : ofInt? n = some x) :
    x.isFinite = true ∧ x.toBits.toNat = magnitude n 1 := by
  have hnearest : nearest (decide ((n : Int) < 0)) (n : Int).natAbs 1 =
      Float.ofBits (UInt64.ofNat (magnitude n 1)) := by
    rw [decide_eq_false (by omega), Int.natAbs_natCast, nearest_eq, if_neg (by decide),
      Nat.zero_add]
  obtain ⟨hfinite, hx⟩ := Option.ite_none_right_eq_some.mp h
  obtain rfl := Option.some.inj hx
  rw [hnearest] at hfinite ⊢
  refine ⟨hfinite, ?_⟩
  have hle := magnitude_le n 1
  rw [toBits_ofBits (isNaN_of_isFinite hfinite), UInt64.toNat_ofNat_of_lt']
  exact hle.trans_lt (by decide)

theorem sign_of_toBits_le (h : x.toBits.toNat ≤ 2047 * twoTo 52) : sign x = .positive := by
  have hlow : x.toBits.toNat / twoTo 63 = 0 := Nat.div_eq_of_lt (h.trans_lt (by decide))
  rw [sign, hlow]
  rfl

/-- The double closest to a natural number is at least zero. -/
theorem nonneg_of_ofInt? (h : ofInt? n = some x) : 0 ≤ x := by
  obtain ⟨hfinite, hbits⟩ := toBits_of_ofInt? h
  have hsign := sign_of_toBits_le (hbits.trans_le (magnitude_le n 1))
  have hparts := parts_eq x
  change (parts x).isFinite = true at hfinite
  rw [nonneg_iff]
  rw [hsign] at hparts
  split_ifs at hparts with hones hzero hexponent hzero <;> rw [hparts] at hfinite ⊢
  · cases hfinite
  · cases hfinite
  · trivial
  · rfl
  · rfl

/-- The double closest to a number from two on is at least two. -/
theorem two_le_of_ofInt? (hn : 2 ≤ n) (h : ofInt? n = some x) {q : Rat} (hq : toRat? x = some q) :
    2 ≤ q := by
  obtain ⟨-, hbits⟩ := toBits_of_ofInt? h
  have hlow := le_magnitude hn
  have hhigh := magnitude_le n 1
  rw [← hbits] at hlow hhigh
  have hbiased : 1024 ≤ biased x := by
    have hquotient : 1024 ≤ x.toBits.toNat / twoTo 52 :=
      (Nat.le_div_iff_mul_le (by decide)).mpr hlow
    have hle : x.toBits.toNat / twoTo 52 ≤ 2047 :=
      Nat.div_le_of_le_mul (Nat.mul_comm _ _ ▸ hhigh)
    rwa [biased, Nat.mod_eq_of_lt (hle.trans_lt (by decide))]
  have hreads := reads x
  rw [hq, parts_eq, sign_of_toBits_le hhigh, if_neg (show ¬ biased x = 0 by omega)] at hreads
  split_ifs at hreads
  · cases hreads
  · cases hreads
  · cases hreads
    have hpow : (2 : Rat) ^ (-51 : Int) ≤ 2 ^ ((biased x : Int) - 1075) :=
      zpow_le_zpow_right₀ one_le_two (by omega)
    have hcast : (2 : Rat) ^ 52 ≤ ((twoTo 52 + fraction x : Nat) : Rat) := by
      exact_mod_cast Nat.le_add_right (2 ^ 52) (fraction x)
    calc (2 : Rat) = 2 ^ 52 * 2 ^ (-51 : Int) := by norm_num
      _ ≤ value .positive (twoTo 52 + fraction x) ((biased x : Int) - 1075) :=
        mul_le_mul hcast hpow (by positivity) (by positivity)

end Bellman.Double
