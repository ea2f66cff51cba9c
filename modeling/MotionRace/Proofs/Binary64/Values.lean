import Mathlib
import MotionRace.Proofs.Binary64.Rounding

/-!
# The numbers that floats stand for

A float is kept as 64 bits, and its operations work on a sign, a whole mantissa and an exponent. The
bits stand for such a triple in one form only, where the mantissa has 53 bits unless the exponent is
the smallest (`IsCanonical`). What is in this form and not too large is kept by the bits
(`unpack_pack`), and its order is that of the numbers (`le_iff_value_le`).
-/

namespace MotionRace.Binary64

open Float.Model (UnpackedFloat Format)
open Float.Model.UnpackedFloat

/-- The number that a float stands for; zero for what is no number. -/
def value : UnpackedFloat → ℚ
  | .finite sign mantissa exponent _ => (sign.apply mantissa : ℤ) * 2 ^ exponent
  | _ => 0

/-- Whether a float has the form that its bits give it. -/
def IsCanonical : UnpackedFloat → Prop
  | .finite _ mantissa exponent _ =>
    mantissa < 2 ^ 53 ∧ -1074 ≤ exponent ∧ (2 ^ 52 ≤ mantissa ∨ exponent = -1074)
  | _ => True

/-- Whether the exponent of a float is not beyond the largest one. -/
def Fits : UnpackedFloat → Prop
  | .finite _ _ exponent _ => exponent ≤ 971
  | _ => True

/-! ## Bits -/

theorem toNat_append_mantissa (mantissa : BitVec 52) :
    (1#1 ++ mantissa).toNat = 2 ^ 52 + mantissa.toNat := by
  rw [BitVec.toNat_append, ← Nat.shiftLeft_add_eq_or_of_lt mantissa.isLt]
  rfl

/-- Bits stand for a float in canonical form that is not too large. -/
theorem canonical_unpack (bits : BitVec 64) :
    IsCanonical (unpack Format.binary64 bits) ∧ Fits (unpack Format.binary64 bits) := by
  have bias : (Format.binary64.exponentBias : ℤ) + Format.binary64.mantissaBitsWithoutImplicit =
      1075 := rfl
  have mantissa := (@unpackMantissa Format.binary64 bits).isLt
  simp only [unpack, bias]
  split_ifs with special infinite lowest empty
  · exact ⟨trivial, trivial⟩
  · exact ⟨trivial, trivial⟩
  · exact ⟨trivial, trivial⟩
  · rw [lowest]
    exact ⟨⟨mantissa.trans (by decide), by decide, .inr (by decide)⟩,
      show ((0#11).toNat : ℤ) - 1075 + 1 ≤ 971 by decide⟩
  · generalize @unpackExponent Format.binary64 bits = exponent at special lowest ⊢
    have below : exponent.toNat ≠ 2047 := fun same => special (BitVec.eq_of_toNat_eq same)
    have above : exponent.toNat ≠ 0 := fun same => lowest (BitVec.eq_of_toNat_eq same)
    have bound : exponent.toNat < 2048 := exponent.isLt
    have whole := toNat_append_mantissa (@unpackMantissa Format.binary64 bits)
    exact ⟨⟨by omega, by omega, .inl (by omega)⟩, show (exponent.toNat : ℤ) - 1075 ≤ 971 by omega⟩

theorem unpack_normal (sign : Sign) {exponent : BitVec 11} (mantissa : BitVec 52)
    (finite : exponent ≠ -1#11) (normal : exponent ≠ 0#11) :
    unpack Format.binary64 (packComponents Format.binary64 sign exponent mantissa) =
      .finite sign (2 ^ 52 + mantissa.toNat) (exponent.toNat - 1075) (by omega) := by
  simp only [unpack, unpackExponent_packComponents, unpackMantissa_packComponents,
    unpackSign_packComponents, Sign.ofBitVec_toBitVec, if_neg finite, if_neg normal,
    toNat_append_mantissa]
  rfl

theorem unpack_subnormal (sign : Sign) {mantissa : BitVec 52} (pos : 0 < mantissa.toNat) :
    unpack Format.binary64 (packComponents Format.binary64 sign 0#11 mantissa) =
      .finite sign mantissa.toNat (-1074) pos := by
  have nonzero : mantissa ≠ 0#52 := by
    rintro rfl
    exact absurd pos (by decide)
  have finite : (0#11) ≠ -1#11 := by decide
  simp only [unpack, unpackExponent_packComponents, unpackMantissa_packComponents,
    unpackSign_packComponents, Sign.ofBitVec_toBitVec, if_neg finite, if_true, dif_neg nonzero]
  rfl

theorem biased (exponent : ℤ) :
    exponent + Format.binary64.exponentBias + (52 : Nat) = exponent + 1075 := by
  rw [add_assoc]
  rfl

/-- What is in canonical form and not too large is kept by the bits. -/
theorem unpack_pack {u : UnpackedFloat} (canonical : IsCanonical u) (fits : Fits u) :
    unpack Format.binary64 (pack Format.binary64 u) = u := by
  cases u with
  | notANumber => rfl
  | infinity sign => cases sign <;> rfl
  | zero sign => cases sign <;> rfl
  | finite sign mantissa exponent pos =>
    obtain ⟨small, least, normal⟩ := canonical
    change exponent ≤ 971 at fits
    have log : mantissa.log2 < 53 := (Nat.log2_lt pos.ne').mpr small
    simp only [pack, biased]
    rw [if_neg (by change ¬ 2048 ≤ _; omega)]
    by_cases large : 2 ^ 52 ≤ mantissa
    · have full : mantissa.log2 + 1 = Format.binary64.mantissaBits := by
        have reached := (Nat.le_log2 pos.ne').mpr large
        change mantissa.log2 + 1 = 53
        omega
      have stored : (BitVec.ofNat 11 (exponent + 1075).toNat).toNat = (exponent + 1075).toNat := by
        rw [BitVec.toNat_ofNat, Nat.mod_eq_of_lt (by omega)]
      rw [if_pos full, unpack_normal sign (BitVec.ofNat 52 mantissa)]
      · have kept : 2 ^ 52 + (BitVec.ofNat 52 mantissa).toNat = mantissa := by
          rw [BitVec.toNat_ofNat]
          omega
        simp only [kept, stored]
        congr 1
        omega
      · intro same
        have ones := congrArg BitVec.toNat same
        rw [stored] at ones
        change _ = 2047 at ones
        omega
      · intro same
        have zeros := congrArg BitVec.toNat same
        rw [stored] at zeros
        change _ = 0 at zeros
        omega
    · have low : mantissa.log2 < 52 := (Nat.log2_lt pos.ne').mpr (by omega)
      have short : mantissa.log2 + 1 ≠ Format.binary64.mantissaBits := by
        change mantissa.log2 + 1 ≠ 53
        omega
      have kept : (BitVec.ofNat 52 mantissa).toNat = mantissa := by
        rw [BitVec.toNat_ofNat, Nat.mod_eq_of_lt (by omega)]
      obtain rfl : exponent = -1074 := normal.resolve_left large
      rw [if_neg short, unpack_subnormal sign (kept.symm ▸ pos)]
      simp only [kept]

/-- What is too large is packed as an infinity. -/
theorem unpack_pack_of_large {sign : Sign} {mantissa : Nat} {exponent : ℤ} {pos : 0 < mantissa}
    (large : ¬ Fits (.finite sign mantissa exponent pos)) :
    unpack Format.binary64 (pack Format.binary64 (.finite sign mantissa exponent pos)) =
      .infinity sign := by
  change ¬ exponent ≤ 971 at large
  simp only [pack, biased]
  rw [if_pos (by change 2048 ≤ _; omega)]
  cases sign <;> rfl

theorem isFinite_unpack_pack {u : UnpackedFloat} (canonical : IsCanonical u) :
    (unpack Format.binary64 (pack Format.binary64 u)).isFinite = true ↔
      u.isFinite = true ∧ Fits u := by
  by_cases fits : Fits u
  · rw [unpack_pack canonical fits, and_iff_left fits]
  · refine iff_of_false ?_ fun both => fits both.2
    cases u with
    | finite sign mantissa exponent pos =>
      rw [unpack_pack_of_large fits]
      exact Bool.false_ne_true
    | _ => exact absurd trivial fits

/-! ## Order -/

section Order

variable {m n : Nat} {e f : ℤ} {pos : 0 < m} {u v : UnpackedFloat}

theorem value_positive : value (.finite .positive m e pos) = m * 2 ^ e := rfl

theorem value_negative : value (.finite .negative m e pos) = -(m * 2 ^ e) := by
  simp only [value, Sign.apply, Int.cast_neg, Int.cast_natCast, neg_mul]

theorem magnitude_pos (pos : 0 < m) (e : ℤ) : (0 : ℚ) < m * 2 ^ e :=
  mul_pos (Nat.cast_pos.mpr pos) (two_zpow_pos e)

/-- In canonical form the larger exponent belongs to the larger number. -/
theorem magnitude_lt {sign other : Sign} {also : 0 < n}
    (canonical : IsCanonical (.finite sign m e pos)) (too : IsCanonical (.finite other n f also))
    (lt : e < f) : (m : ℚ) * 2 ^ e < n * 2 ^ f := by
  have small : (m : ℚ) < 2 ^ 53 := by exact_mod_cast canonical.1
  have large : (2 ^ 52 : ℚ) ≤ n := by
    have normal := too.2.2.resolve_right (by have := canonical.2.1; omega)
    exact_mod_cast normal
  calc (m : ℚ) * 2 ^ e < 2 ^ 53 * 2 ^ e := mul_lt_mul_of_pos_right small (two_zpow_pos e)
    _ = 2 ^ 52 * 2 ^ (e + 1) := by rw [zpow_add_one₀ two_ne_zero]; ring
    _ ≤ 2 ^ 52 * 2 ^ f := by gcongr <;> norm_num; exact lt
    _ ≤ n * 2 ^ f := mul_le_mul_of_nonneg_right large (two_zpow_pos f).le

theorem compare_magnitude {sign other : Sign} {also : 0 < n}
    (canonical : IsCanonical (.finite sign m e pos)) (too : IsCanonical (.finite other n f also)) :
    (compare e f).then (compare m n) = compare ((m : ℚ) * 2 ^ e) (n * 2 ^ f) := by
  rcases lt_trichotomy e f with lt | rfl | gt
  · rw [compare_lt_iff_lt.mpr lt, compare_lt_iff_lt.mpr (magnitude_lt canonical too lt)]
    rfl
  · have unit := two_zpow_pos e
    rw [compare_eq_iff_eq.mpr rfl, Ordering.eq_then]
    rcases lt_trichotomy m n with lt | rfl | gt
    · have larger := mul_lt_mul_of_pos_right (Nat.cast_lt.mpr lt) unit
      rw [compare_lt_iff_lt.mpr lt, compare_lt_iff_lt.mpr larger]
    · rw [compare_eq_iff_eq.mpr rfl, compare_eq_iff_eq.mpr rfl]
    · have smaller := mul_lt_mul_of_pos_right (Nat.cast_lt.mpr gt) unit
      rw [compare_gt_iff_gt.mpr gt, compare_gt_iff_gt.mpr smaller]
  · rw [compare_gt_iff_gt.mpr gt, compare_gt_iff_gt.mpr (magnitude_lt too canonical gt)]
    rfl

/-- The order of finite floats is that of their numbers. -/
theorem le_iff_value_le (canonical : IsCanonical u) (too : IsCanonical v)
    (finite : u.isFinite = true) (also : v.isFinite = true) :
    u.le v = true ↔ value u ≤ value v := by
  cases u with
  | notANumber | infinity => cases finite
  | zero sign =>
    cases v with
    | notANumber | infinity => cases also
    | zero => exact iff_of_true rfl (le_refl 0)
    | finite other n f pos =>
      have magnitude := magnitude_pos pos f
      cases other with
      | positive => exact iff_of_true rfl magnitude.le
      | negative =>
        refine iff_of_false nofun (not_le_of_gt ?_)
        exact value_negative ▸ neg_neg_of_pos magnitude
  | finite sign m e pos =>
    have magnitude := magnitude_pos pos e
    cases v with
    | notANumber | infinity => cases also
    | zero =>
      cases sign with
      | positive => exact iff_of_false nofun (not_le_of_gt magnitude)
      | negative => exact iff_of_true rfl (value_negative ▸ (neg_neg_of_pos magnitude).le)
    | finite other n f below =>
      have larger := magnitude_pos below f
      cases sign with
      | positive =>
        cases other with
        | positive =>
          have order : (compare _ _).isLE = true ↔ (m : ℚ) * 2 ^ e ≤ n * 2 ^ f :=
            Std.LawfulBCmp.isLE_iff_le
          rwa [← compare_magnitude canonical too] at order
        | negative =>
          refine iff_of_false nofun (not_le_of_gt ?_)
          rw [value_positive, value_negative]
          linarith
      | negative =>
        cases other with
        | positive =>
          refine iff_of_true rfl ?_
          rw [value_positive, value_negative]
          linarith
        | negative =>
          have order : (compare _ _).isLE = true ↔ (n : ℚ) * 2 ^ f ≤ m * 2 ^ e :=
            Std.LawfulBCmp.isLE_iff_le
          rw [Std.OrientedOrd.eq_swap, ← compare_magnitude canonical too] at order
          rwa [value_negative, value_negative, neg_le_neg_iff]

end Order

/-! ## Size -/

section Size

variable {sign : Sign} {m : Nat} {e : ℤ} {pos : 0 < m} {u : UnpackedFloat}

theorem abs_value_finite : |value (.finite sign m e pos)| = m * 2 ^ e := by
  have magnitude := magnitude_pos pos e
  cases sign with
  | positive => rw [value_positive, abs_of_pos magnitude]
  | negative => rw [value_negative, abs_neg, abs_of_pos magnitude]

theorem quantumExp_magnitude (canonical : IsCanonical (.finite sign m e pos)) :
    quantumExp (m * 2 ^ e) = e := by
  have magnitude := magnitude_pos pos e
  have unit := two_zpow_pos e
  obtain ⟨small, least, normal⟩ := canonical
  apply le_antisymm
  · refine (quantumExp_le_iff magnitude).mpr ⟨?_, least⟩
    rw [zpow_add₀ two_ne_zero, mul_comm]
    exact mul_lt_mul_of_pos_left (by exact_mod_cast small) unit
  · refine (le_quantumExp_iff magnitude).mpr ?_
    rcases normal with large | rfl
    · left
      rw [zpow_add₀ two_ne_zero, mul_comm]
      exact mul_le_mul_of_nonneg_right (by exact_mod_cast large) unit.le
    · exact .inr (le_refl _)

theorem quantumExp_value (canonical : IsCanonical (.finite sign m e pos)) :
    quantumExp (value (.finite sign m e pos)) = e := by
  rw [← quantumExp_abs, abs_value_finite, quantumExp_magnitude canonical]

/-- A canonical float is a multiple of the power of two that belongs to its size. -/
theorem isGrid_value (canonical : IsCanonical u) : IsGrid (value u) := by
  cases u with
  | finite sign m e pos => exact ⟨sign.apply m, by rw [quantumExp_value canonical]; rfl⟩
  | _ => exact ⟨0, by rw [Int.cast_zero, zero_mul]; rfl⟩

/-- In canonical form a number other than zero has one float. -/
theorem eq_of_value_eq {v : UnpackedFloat} (canonical : IsCanonical u) (too : IsCanonical v)
    (same : value u = value v) (nonzero : value u ≠ 0) : u = v := by
  cases u with
  | finite sign m e pos =>
    cases v with
    | finite other n f more =>
      obtain rfl : e = f := by
        rw [← quantumExp_value canonical, same, quantumExp_value too]
      have whole : sign.apply m = other.apply n := by
        exact_mod_cast mul_right_cancel₀ (two_zpow_pos e).ne' same
      cases sign <;> cases other <;> simp only [Sign.apply] at whole
      · obtain rfl : m = n := by omega
        rfl
      · omega
      · omega
      · obtain rfl : m = n := by omega
        rfl
    | _ => exact absurd same nonzero
  | _ => exact absurd rfl nonzero

theorem nearest_value (canonical : IsCanonical u) : nearest (value u) = value u :=
  nearest_eq_self (isGrid_value canonical)

/-- What fits is what lies below the power of two after the largest float. -/
theorem fits_iff (canonical : IsCanonical u) : Fits u ↔ |value u| < 2 ^ 1024 := by
  cases u with
  | finite sign m e pos =>
    rw [abs_value_finite]
    have bound := quantumExp_le_iff (magnitude_pos pos e) (e := 971)
    rw [quantumExp_magnitude canonical] at bound
    exact bound.trans (and_iff_left (by decide))
  | _ => exact iff_of_true trivial (by simp [value])

end Size

end MotionRace.Binary64
