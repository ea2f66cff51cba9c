import MotionRace.Decimal.Binary
import MotionRace.Proofs.Binary64.Specials

/-!
# What a float is taken apart into

The parts are read off the 64 bits by whole-number arithmetic. They are those of the float that the
bits stand for (`parts_eq`), and they settle it unless it is no number. So a finite float is its
absolute value with a sign (`parts_of_isFinite`), and one that is not zero is settled by its number
(`eq_of_number_eq`).

What is computed from the parts is exact: `ratio` is the quotient it is meant to be, and a quotient
is rounded as the number is (`roundRatio_toEven`).
-/

namespace MotionRace.Decimal

open Float.Model (UnpackedFloat Format)
open Float.Model.UnpackedFloat
open MotionRace.Binary64

/-- The parts of an unpacked float. -/
def Parts.ofUnpacked : UnpackedFloat → Parts
  | .notANumber => .nan
  | .infinity sign => .infinite (sign == .negative)
  | .zero sign => .finite (sign == .negative) 0 (-1074)
  | .finite sign mantissa exponent _ => .finite (sign == .negative) mantissa exponent

/-! ## Bits -/

theorem toNat_unpackExponent (bits : BitVec 64) :
    (@unpackExponent Format.binary64 bits).toNat = bits.toNat / 2 ^ 52 % 2048 := by
  simp only [unpackExponent, BitVec.toNat_cast, BitVec.extractLsb_toNat, Nat.shiftRight_eq_div_pow]

theorem toNat_unpackMantissa (bits : BitVec 64) :
    (@unpackMantissa Format.binary64 bits).toNat = bits.toNat % 2 ^ 52 := by
  simp only [unpackMantissa, BitVec.toNat_cast, BitVec.extractLsb_toNat, Nat.shiftRight_zero,
    Nat.sub_zero, Nat.reduceSub, Nat.reduceAdd]

theorem toNat_unpackSign (bits : BitVec 64) :
    (@unpackSign Format.binary64 bits).toNat = bits.toNat / 2 ^ 63 % 2 := by
  simp only [unpackSign, BitVec.toNat_cast, BitVec.extractLsb_toNat, Nat.shiftRight_eq_div_pow]

theorem ofBitVec_beq_negative (bit : BitVec 1) :
    (Sign.ofBitVec bit == .negative) = (bit.toNat == 1) := by
  revert bit
  decide

/-- The parts of a bit pattern are those of what the pattern stands for. -/
theorem ofBits_toNat (bits : BitVec 64) :
    Parts.ofBits bits.toNat = .ofUnpacked (unpack Format.binary64 bits) := by
  have exponent := toNat_unpackExponent bits
  have mantissa := toNat_unpackMantissa bits
  have sign := ofBitVec_beq_negative (@unpackSign Format.binary64 bits)
  rw [toNat_unpackSign] at sign
  have bias : (Format.binary64.exponentBias : ℤ) + Format.binary64.mantissaBitsWithoutImplicit =
      1075 := rfl
  simp only [unpack, Parts.ofBits, bias, Nat.shiftRight_eq_div_pow, Nat.one_shiftLeft]
  rw [← sign]
  have full : @unpackExponent Format.binary64 bits = -1#11 ↔ bits.toNat / 2 ^ 52 % 2048 = 2047 := by
    rw [← BitVec.toNat_inj, exponent]
    rfl
  have empty : @unpackExponent Format.binary64 bits = 0#11 ↔ bits.toNat / 2 ^ 52 % 2048 = 0 := by
    rw [← BitVec.toNat_inj, exponent]
    rfl
  have noMantissa : @unpackMantissa Format.binary64 bits = 0#52 ↔ bits.toNat % 2 ^ 52 = 0 := by
    rw [← BitVec.toNat_inj, mantissa]
    rfl
  simp only [full, empty, noMantissa]
  split_ifs with special infinite lowest zero
  · rfl
  · rfl
  · rw [zero]
    rfl
  · simp only [Parts.ofUnpacked, mantissa, exponent]
    congr 1
    omega
  · simp only [Parts.ofUnpacked, toNat_append_mantissa, mantissa, exponent]

theorem parts_eq (x : Float) : parts x = .ofUnpacked x.toModel.unpack :=
  ofBits_toNat x.toModel.toBits.toBitVec

theorem eq_of_toBits_eq {x y : Float} (same : x.toBits = y.toBits) : x = y := by
  obtain ⟨⟨bits, valid⟩⟩ := x
  obtain ⟨⟨other, also⟩⟩ := y
  obtain rfl : bits = other := same
  rfl

/-- Patterns with the same parts are the same, except for those that are no number. -/
theorem ofBits_injective {a b : Nat} (small : a < 2 ^ 64) (also : b < 2 ^ 64)
    (same : Parts.ofBits a = Parts.ofBits b) (number : Parts.ofBits a ≠ .nan) : a = b := by
  simp only [Parts.ofBits, Nat.shiftRight_eq_div_pow, Nat.one_shiftLeft] at same number
  have sign : ((a / 2 ^ 63 % 2 == 1) = (b / 2 ^ 63 % 2 == 1)) ↔ a / 2 ^ 63 = b / 2 ^ 63 := by
    rw [Bool.eq_iff_iff, beq_iff_eq, beq_iff_eq]
    omega
  split_ifs at same number
  all_goals simp only [Parts.infinite.injEq, Parts.finite.injEq, sign] at same
  all_goals first | omega | exact absurd rfl number

/-! ## Floats -/

/-- A float is settled by what it is unpacked to, if it is a number. -/
theorem eq_of_unpack_eq {x y : Float} (same : x.toModel.unpack = y.toModel.unpack)
    (number : x.toModel.unpack ≠ .notANumber) : x = y := by
  have notNan : parts x ≠ .nan := by
    rw [parts_eq]
    revert number
    cases x.toModel.unpack with
    | notANumber => exact fun number => absurd rfl number
    | _ => exact fun _ => Parts.noConfusion
  have alike : parts x = parts y := by
    rw [parts_eq, parts_eq, same]
  exact eq_of_toBits_eq (UInt64.toNat_inj.mp
    (ofBits_injective x.toBits.toNat_lt y.toBits.toNat_lt alike notNan))

/-- A float other than zero is settled by its number. -/
theorem eq_of_number_eq {x y : Float} (same : number x = number y) (nonzero : number x ≠ 0) :
    x = y := by
  refine eq_of_unpack_eq (eq_of_value_eq (isCanonical x) (isCanonical y) same nonzero) ?_
  intro nan
  exact nonzero (by rw [number, nan]; rfl)

theorem fits_neg {u : UnpackedFloat} (fits : Fits u) : Fits u.neg := by
  cases u <;> exact fits

theorem fits_abs {u : UnpackedFloat} (fits : Fits u) : Fits u.abs := by
  cases u <;> exact fits

theorem isCanonical_abs {u : UnpackedFloat} (canonical : IsCanonical u) : IsCanonical u.abs := by
  cases u <;> exact canonical

theorem unpack_neg (x : Float) : (-x).toModel.unpack = x.toModel.unpack.neg :=
  unpack_pack (isCanonical_neg (isCanonical x)) (fits_neg (canonical_unpack _).2)

theorem unpack_abs (x : Float) : x.abs.toModel.unpack = x.toModel.unpack.abs :=
  unpack_pack (isCanonical_abs (isCanonical x)) (fits_abs (canonical_unpack _).2)

/-! ## Finite floats -/

theorem parts_of_special {x : Float} (special : x.isFinite = false) :
    parts x = .nan ∨ ∃ negative, parts x = .infinite negative := by
  change x.toModel.unpack.isFinite = false at special
  rw [parts_eq]
  cases form : x.toModel.unpack with
  | notANumber => exact .inl rfl
  | infinity sign => exact .inr ⟨_, rfl⟩
  | _ => rw [form] at special; cases special

/-- A finite float is a sign and the parts of its absolute value. -/
theorem parts_of_isFinite {x : Float} (finite : x.isFinite = true) :
    ∃ negative m e, parts x = .finite negative m e ∧ parts x.abs = .finite false m e ∧
      x = if negative then -x.abs else x.abs := by
  change x.toModel.unpack.isFinite = true at finite
  have same {sign : Sign} (signed : (if sign == .negative then x.toModel.unpack.abs.neg
      else x.toModel.unpack.abs) = x.toModel.unpack) :
      x = if sign == .negative then -x.abs else x.abs := by
    have number : x.toModel.unpack ≠ .notANumber := by
      intro nan
      rw [nan] at finite
      cases finite
    refine eq_of_unpack_eq ?_ number
    rw [apply_ite (fun y : Float => y.toModel.unpack), unpack_neg, unpack_abs, signed]
  cases form : x.toModel.unpack with
  | notANumber | infinity => rw [form] at finite; cases finite
  | zero sign =>
    refine ⟨sign == .negative, 0, -1074, ?_, ?_, same ?_⟩
    · rw [parts_eq, form]
      rfl
    · rw [parts_eq, unpack_abs, form]
      rfl
    · rw [form]
      cases sign <;> rfl
  | finite sign m e pos =>
    refine ⟨sign == .negative, m, e, ?_, ?_, same ?_⟩
    · rw [parts_eq, form]
      rfl
    · rw [parts_eq, unpack_abs, form]
      rfl
    · rw [form]
      cases sign <;> rfl

theorem unpack_of_parts {x : Float} {m : Nat} {e : ℤ} (mantissaPos : 0 < m)
    (apart : parts x = .finite false m e) :
    x.toModel.unpack = .finite .positive m e mantissaPos := by
  rw [parts_eq] at apart
  cases form : x.toModel.unpack with
  | notANumber | infinity => rw [form] at apart; cases apart
  | zero sign =>
    rw [form] at apart
    obtain ⟨-, rfl, -⟩ := Parts.finite.inj apart
    exact absurd mantissaPos (Nat.lt_irrefl 0)
  | finite sign n f pos =>
    rw [form] at apart
    obtain ⟨positive, rfl, rfl⟩ := Parts.finite.inj apart
    cases sign with
    | positive => rfl
    | negative => cases positive

theorem eq_zero_of_parts {x : Float} {e : ℤ} (apart : parts x = .finite false 0 e) :
    x = Float.ofBits 0 := by
  rw [parts_eq] at apart
  cases form : x.toModel.unpack with
  | notANumber | infinity => rw [form] at apart; cases apart
  | zero sign =>
    rw [form] at apart
    cases sign with
    | positive => exact eq_of_unpack_eq form (by rw [form]; exact UnpackedFloat.noConfusion)
    | negative => cases (Parts.finite.inj apart).1
  | finite sign n f pos =>
    rw [form] at apart
    obtain ⟨-, rfl, -⟩ := Parts.finite.inj apart
    exact absurd pos (Nat.lt_irrefl 0)

/-- A float that is above zero is an exact product. -/
theorem unpack_of_number_pos {x : Float} (pos : 0 < number x) :
    ∃ m e mantissaPos, parts x = .finite false m e ∧
      x.toModel.unpack = .finite .positive m e mantissaPos := by
  rw [parts_eq]
  rw [number] at pos
  cases form : x.toModel.unpack with
  | finite sign m e mantissaPos =>
    rw [form] at pos
    cases sign with
    | positive => exact ⟨m, e, mantissaPos, rfl, rfl⟩
    | negative =>
      have magnitude := magnitude_pos mantissaPos e
      rw [value_negative] at pos
      linarith
  | _ => rw [form] at pos; cases lt_irrefl _ pos

/-! ## Exact quotients -/

theorem ratio_pos (m : Nat) (e u : ℤ) : 0 < (ratio m e u).2 :=
  Nat.mul_pos (Nat.pow_pos two_pos) (Nat.pow_pos (by decide))

theorem ratio_div (m : Nat) (e u : ℤ) :
    ((ratio m e u).1 / (ratio m e u).2 : ℚ) = m * 2 ^ e / 10 ^ u := by
  have split {b : ℚ} (nonzero : b ≠ 0) (k : ℤ) : b ^ k.toNat / b ^ (-k).toNat = b ^ k := by
    rw [← zpow_natCast, ← zpow_natCast, ← zpow_sub₀ nonzero]
    congr 1
    omega
  rw [← split two_ne_zero e, ← split (by norm_num : (10 : ℚ) ≠ 0) u]
  simp only [ratio, Nat.pow_eq]
  push_cast
  field_simp

/-- A quotient is its whole part and what is left over. -/
theorem div_eq_add_mod_div (num : Nat) {den : Nat} (pos : 0 < den) :
    (num / den : ℚ) = (num / den : Nat) + (num % den : Nat) / den := by
  have large : (den : ℚ) ≠ 0 := by exact_mod_cast pos.ne'
  have whole : (num : ℚ) = den * (num / den : Nat) + (num % den : Nat) := by
    exact_mod_cast (Nat.div_add_mod num den).symm
  conv_lhs => rw [whole, add_div, mul_div_cancel_left₀ _ large]

/-- Whole-number arithmetic rounds as exact numbers are rounded. -/
theorem roundRatio_toEven (num : Nat) {den : Nat} (pos : 0 < den) :
    (roundRatio .toEven num den : ℤ) = roundEven (num / den) := by
  have floor : ⌊(num / den : ℚ)⌋ = (num / den : Nat) := by
    have cast := Rat.floor_intCast_div_natCast num den
    rwa [Int.cast_natCast, ← Int.natCast_div] at cast
  have large : (0 : ℚ) < den := by exact_mod_cast pos
  have fract : Int.fract (num / den : ℚ) = (num % den : Nat) / den := by
    rw [Int.fract, floor, Int.cast_natCast, div_eq_add_mod_div num pos, add_sub_cancel_left]
  have below : Int.fract (num / den : ℚ) < 1 / 2 ↔ 2 * (num % den) < den := by
    rw [fract, div_lt_div_iff₀ large two_pos, ← @Nat.cast_lt ℚ]
    push_cast
    rw [mul_comm, one_mul]
  have above : 1 / 2 < Int.fract (num / den : ℚ) ↔ den < 2 * (num % den) := by
    rw [fract, div_lt_div_iff₀ two_pos large, ← @Nat.cast_lt ℚ]
    push_cast
    rw [mul_comm _ (2 : ℚ), one_mul]
  simp only [roundRatio, roundEven, below, above, floor]
  split_ifs <;> push_cast <;> rfl

end MotionRace.Decimal
