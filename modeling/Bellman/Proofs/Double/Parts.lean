import Bellman.Proofs.Double.Comparison
import Mathlib

/-!
# The parts of a double

A double is read in two ways: as the parts with which it is added and compared, and as an exact
ratio. `reads` says how the two belong together, and which significands and exponents a double can
have. The other way round, parts are packed into a double, and those that a double can have are
found in it again.
-/

namespace Bellman.Double

open Float.Model Float.Model.UnpackedFloat Decimal

/-- The bits of a double that hold its significand. -/
def fraction (x : Float) : Nat :=
  x.toBits.toNat % twoTo 52

/-- The bits of a double that hold its exponent. -/
def biased (x : Float) : Nat :=
  x.toBits.toNat / twoTo 52 % twoTo 11

/-- The sign that the bits of a double hold. -/
def sign (x : Float) : Sign :=
  if x.toBits.toNat / twoTo 63 = 1 then .negative else .positive

section Bits

variable (x : Float)

theorem toNat_unpackMantissa :
    (@unpackMantissa Format.binary64 x.toModel.toBits.toBitVec).toNat =
      fraction x := by
  rw [unpackMantissa_def, BitVec.extractLsb'_toNat, Nat.shiftRight_zero]
  rfl

theorem toNat_unpackExponent :
    (@unpackExponent Format.binary64 x.toModel.toBits.toBitVec).toNat =
      biased x := by
  rw [unpackExponent_def, BitVec.extractLsb'_toNat, Nat.shiftRight_eq_div_pow]
  rfl

theorem ofBitVec_unpackSign :
    Sign.ofBitVec (@unpackSign Format.binary64 x.toModel.toBits.toBitVec) =
      sign x := by
  have hlt : x.toBits.toNat < 2 ^ 64 := x.toBits.toNat_lt
  have hbit : (x.toModel.toBits.toBitVec.extractLsb' (52 + 11) 1).toNat =
      x.toBits.toNat / twoTo 63 := by
    rw [BitVec.extractLsb'_toNat, Nat.shiftRight_eq_div_pow]
    change x.toBits.toNat / 2 ^ 63 % 2 ^ 1 = x.toBits.toNat / 2 ^ 63
    omega
  rw [unpackSign_def, sign, ← hbit]
  generalize x.toModel.toBits.toBitVec.extractLsb' (52 + 11) 1 = b
  have hb : b = 0#1 ∨ b = 1#1 := by decide +revert
  rcases hb with rfl | rfl <;> rfl

theorem finite_congr {s : Sign} {m m' : Nat} {e e' : Int} {h : 0 < m} {h' : 0 < m'} (hm : m = m')
    (he : e = e') : UnpackedFloat.finite s m e h = .finite s m' e' h' := by
  subst hm he
  rfl

/-- The parts of a double, read off its bits. -/
theorem parts_eq : parts x =
    if biased x = 2047 then
      if fraction x = 0 then .infinity (sign x) else .notANumber
    else if biased x = 0 then
      if h : fraction x = 0 then .zero (sign x)
      else .finite (sign x) (fraction x) (-1074) (Nat.pos_of_ne_zero h)
    else
      .finite (sign x) (twoTo 52 + fraction x) ((biased x : Int) - 1075)
        (Nat.add_pos_left (Nat.two_pow_pos 52) _) := by
  have hm := toNat_unpackMantissa x
  have hbias : (Format.binary64.exponentBias : Int) = 1023 := rfl
  have hones : (-1#11).toNat = 2047 := rfl
  change UnpackedFloat.unpack Format.binary64 x.toModel.toBits.toBitVec = _
  simp only [UnpackedFloat.unpack, ofBitVec_unpackSign, toNat_unpackExponent, hm,
    ← BitVec.toNat_inj, hones, BitVec.toNat_ofNat, Nat.zero_mod, hbias]
  split_ifs
  · rfl
  · rfl
  · rfl
  · refine finite_congr rfl ?_
    omega
  · refine finite_congr ?_ ?_
    · rw [BitVec.toNat_append, ← Nat.shiftLeft_add_eq_or_of_lt (BitVec.isLt _), hm]
      rfl
    · omega

end Bits

/-- The exact value of a significand with a sign and an exponent. -/
def value (s : Sign) (m : Nat) (e : Int) : Rat :=
  (s.apply m : Rat) * 2 ^ e

/-- The parts that a double can have, and the exact value of a double with these parts. -/
inductive Reads : UnpackedFloat → Option Rat → Prop
  | notANumber : Reads .notANumber none
  | infinity (s : Sign) : Reads (.infinity s) none
  | zero (s : Sign) : Reads (.zero s) (some 0)
  | finite {s : Sign} {m : Nat} {e : Int} (h : 0 < m) (hm : m < 2 ^ 53) (hlow : -1074 ≤ e)
      (hhigh : e ≤ 971) (hnormal : 2 ^ 52 ≤ m ∨ e = -1074) :
      Reads (.finite s m e h) (some (value s m e))

theorem abs_value (s : Sign) (m : Nat) (e : Int) : |value s m e| = m * 2 ^ e := by
  cases s <;> simp [value, Sign.apply, abs_mul]

theorem value_zero (s : Sign) (e : Int) : value s 0 e = 0 := by
  cases s <;> simp [value, Sign.apply]

theorem toRat_eq (negative : Bool) (m : Nat) (e : Int) :
    Parts.toRat ⟨negative, m, e⟩ = value (if negative then .negative else .positive) m e := by
  have hratio :
      ((Parts.ratio ⟨negative, m, e⟩).1 : Rat) / ((Parts.ratio ⟨negative, m, e⟩).2 : Rat) =
        m * 2 ^ e := by
    simp only [Parts.ratio]
    split
    · next he =>
      obtain ⟨n, rfl⟩ : ∃ n : Nat, e = -n := ⟨e.natAbs, by omega⟩
      simp [twoTo, zpow_neg, div_eq_mul_inv]
    · next he =>
      obtain ⟨n, rfl⟩ : ∃ n : Nat, e = n := ⟨e.natAbs, by omega⟩
      simp [twoTo]
  simp only [Parts.toRat, hratio]
  cases negative
  · rfl
  · simp [value, Sign.apply]

/-- Every double is read in both ways alike. -/
theorem reads (x : Float) : Reads (parts x) (toRat? x) := by
  have hfraction : fraction x < 2 ^ 52 := Nat.mod_lt _ (by decide)
  have hbiased : biased x < 2 ^ 11 := Nat.mod_lt _ (by decide)
  have hparts : Parts.ofFloat? x =
      if biased x = 2047 then none
      else if biased x = 0 then some ⟨x.toBits.toNat / twoTo 63 = 1, fraction x, -1074⟩
      else some ⟨x.toBits.toNat / twoTo 63 = 1, twoTo 52 + fraction x, (biased x : Int) - 1075⟩ :=
    rfl
  have hsign : sign x =
      if decide (x.toBits.toNat / twoTo 63 = 1) then .negative else .positive := by
    simp only [sign, decide_eq_true_eq]
  rw [parts_eq, toRat?, hparts]
  split_ifs with hones hzero hexponent hzero
  · exact .infinity _
  · exact .notANumber
  · rw [Option.map_some, toRat_eq, hzero, value_zero]
    exact .zero _
  · rw [Option.map_some, toRat_eq, ← hsign]
    exact .finite _ (by omega) (by omega) (by omega) (.inr rfl)
  · rw [Option.map_some, toRat_eq, ← hsign]
    refine .finite _ ?_ (by omega) (by omega) (.inl ?_)
    · change 2 ^ 52 + fraction x < 2 ^ 53
      omega
    · exact Nat.le_add_right _ _

section Packing

theorem parts_sub (x y : Float) :
    parts (x - y) = (pack (sub Format.binary64 (parts x) (parts y))).unpack := rfl

theorem parts_abs (x : Float) : parts x.abs = (pack (parts x).abs).unpack := rfl

variable {s : Sign} {m : Nat} {e : Int}

/-- A significand of full length is found again where it was packed, unless it is too large. -/
theorem unpack_pack_normal (h : 0 < m) (hlow : 2 ^ 52 ≤ m) (hhigh : m < 2 ^ 53)
    (he : -1074 ≤ e) :
    (Float.Model.pack (.finite s m e h)).unpack =
      if e ≤ 971 then .finite s m e h else .infinity s := by
  have hlog : m.log2 = 52 := (Nat.log2_eq_iff (by omega)).mpr ⟨hlow, hhigh⟩
  have hbiased : (e + Format.binary64.exponentBias + (52 : Nat)).toNat = (e + 1075).toNat := by
    change (e + (1023 : Nat) + (52 : Nat)).toNat = _
    omega
  change unpack Format.binary64 (UnpackedFloat.pack Format.binary64 (.finite s m e h)) = _
  have hinfinity : unpack Format.binary64 (packedInfinity Format.binary64 s) = .infinity s := by
    cases s <;> rfl
  by_cases hfits : e ≤ 971
  · have hexponent : (BitVec.ofNat 11 (e + 1075).toNat).toNat = (e + 1075).toNat := by
      rw [BitVec.toNat_ofNat]
      omega
    have hones : BitVec.ofNat 11 (e + 1075).toNat ≠ -1#11 := by
      rw [ne_eq, ← BitVec.toNat_inj, hexponent]
      change (e + 1075).toNat ≠ 2047
      omega
    have hzero : BitVec.ofNat 11 (e + 1075).toNat ≠ 0#11 := by
      rw [ne_eq, ← BitVec.toNat_inj, hexponent]
      change (e + 1075).toNat ≠ 0
      omega
    have hmantissa : (1#1 ++ BitVec.ofNat 52 m).toNat = m := by
      rw [BitVec.toNat_append, ← Nat.shiftLeft_add_eq_or_of_lt (BitVec.isLt _), BitVec.toNat_ofNat]
      change 2 ^ 52 + m % 2 ^ 52 = m
      omega
    have hpack : UnpackedFloat.pack Format.binary64 (.finite s m e h) =
        packComponents Format.binary64 s (BitVec.ofNat 11 (e + 1075).toNat)
          (BitVec.ofNat 52 m) := by
      simp only [UnpackedFloat.pack, hlog, hbiased]
      rw [if_neg (by omega), if_pos (by rfl)]
    rw [hpack, if_pos hfits]
    simp only [UnpackedFloat.unpack, unpackExponent_packComponents, unpackMantissa_packComponents,
      unpackSign_packComponents, Sign.ofBitVec_toBitVec, hones, hzero, if_false]
    refine finite_congr hmantissa ?_
    rw [hexponent]
    change ((e + 1075).toNat : Int) - (1023 + 52) = e
    omega
  · have hpack : UnpackedFloat.pack Format.binary64 (.finite s m e h) =
        packedInfinity Format.binary64 s := by
      simp only [UnpackedFloat.pack, hlog, hbiased]
      rw [if_pos (by omega)]
    rw [hpack, hinfinity, if_neg hfits]

/-- Parts that are at least zero: a zero with any sign, or a positive sign. -/
def IsNonnegative : UnpackedFloat → Prop
  | .notANumber => False
  | .infinity s => s = .positive
  | .zero _ => True
  | .finite s _ _ _ => s = .positive

theorem isNonnegative_unpack_packComponents {exponent : BitVec 11} {mantissa : BitVec 52}
    (h : exponent ≠ -1#11) :
    IsNonnegative (UnpackedFloat.unpack Format.binary64
      (packComponents Format.binary64 .positive exponent mantissa)) := by
  simp only [UnpackedFloat.unpack, unpackExponent_packComponents, unpackMantissa_packComponents,
    unpackSign_packComponents, Sign.ofBitVec_toBitVec, if_neg h]
  split
  · split
    · trivial
    · rfl
  · rfl

/-- Parts that are at least zero stay so when they are packed, whether or not they fit. -/
theorem isNonnegative_unpack_pack {u : UnpackedFloat} (h : IsNonnegative u) :
    IsNonnegative (Float.Model.pack u).unpack := by
  cases u with
  | notANumber => cases h
  | infinity s =>
      obtain rfl := h
      rfl
  | zero s => cases s <;> trivial
  | finite s m e hm =>
      obtain rfl := h
      change IsNonnegative (UnpackedFloat.unpack Format.binary64
        (UnpackedFloat.pack Format.binary64 (.finite .positive m e hm)))
      simp only [UnpackedFloat.pack]
      split
      · rfl
      next hfits =>
      split
      · refine isNonnegative_unpack_packComponents ?_
        rw [ne_eq, ← BitVec.toNat_inj, BitVec.toNat_ofNat]
        change _ ≠ 2047
        omega
      · exact isNonnegative_unpack_packComponents (by decide)

end Packing

end Bellman.Double
