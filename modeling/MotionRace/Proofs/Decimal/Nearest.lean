import MotionRace.Decimal.Read
import MotionRace.Proofs.Binary64.Nearness
import MotionRace.Proofs.Decimal.Parts

/-!
# Decimals are read as the nearest float

`nearest` answers sizes out of range from the length of the digits alone, multiplies or divides
floats where both are exact, and otherwise computes with whole numbers. Each way rounds once
(`rounds_nearest`), so what a decimal is read as depends on its number only.
-/

namespace MotionRace.Decimal

open Float.Model (UnpackedFloat Format)
open Float.Model.UnpackedFloat
open Binary64

/-- Whether a float is what a number is rounded to; a number that is rounded to something too large
has no finite float. -/
structure Rounds (x : Float) (q : ℚ) : Prop where
  isFinite_iff : x.isFinite = true ↔ |Binary64.nearest q| < 2 ^ 1024
  number_eq : |Binary64.nearest q| < 2 ^ 1024 → number x = Binary64.nearest q

/-! ## Powers of ten -/

/-- Thirty digits are about a hundred bits. -/
theorem ten_pow_log {k : Nat} (few : k < 1075) :
    10 ^ (k * 30103 / 100000) ≤ 2 ^ k ∧ 2 ^ k < 10 ^ (k * 30103 / 100000 + 1) := by
  have table : ∀ k < 1075,
      10 ^ (k * 30103 / 100000) ≤ 2 ^ k ∧ 2 ^ k < 10 ^ (k * 30103 / 100000 + 1) := by
    decide +kernel
  exact table k few

theorem two_pow_lt_ten_pow : (2 ^ 1024 : ℚ) < 10 ^ 309 ∧ (2 ^ 1075 : ℚ) < 10 ^ 324 := by
  have largest : 2 ^ 1024 < 10 ^ 309 := by decide +kernel
  have smallest : 2 ^ 1075 < 10 ^ 324 := by decide +kernel
  exact ⟨by exact_mod_cast largest, by exact_mod_cast smallest⟩

theorem power_parts (k : Fin 23) :
    ∃ m e, parts Float.exactlyRepresentablePowersOfTen[k] = .finite false m e ∧ 0 < m ∧
      (ratio m e k).1 = (ratio m e k).2 := by
  have check : ∀ k : Fin 23, (match parts Float.exactlyRepresentablePowersOfTen[k] with
      | .finite false m e => decide (0 < m ∧ (ratio m e k).1 = (ratio m e k).2)
      | _ => false) = true := by
    decide +kernel
  have checked := check k
  split at checked
  next m e apart => exact ⟨m, e, apart, of_decide_eq_true checked⟩
  next => cases checked

/-- The powers of ten that are floats. -/
theorem isFinite_power (k : Fin 23) :
    Float.exactlyRepresentablePowersOfTen[k].isFinite = true ∧
      number Float.exactlyRepresentablePowersOfTen[k] = 10 ^ (k : Nat) := by
  obtain ⟨m, e, apart, mantissaPos, same⟩ := power_parts k
  have unpacked := unpack_of_parts mantissaPos apart
  constructor
  · change Float.exactlyRepresentablePowersOfTen[k].toModel.unpack.isFinite = true
    rw [unpacked]
    rfl
  · have one : (m * 2 ^ e / 10 ^ ((k : Nat) : ℤ) : ℚ) = 1 := by
      have pos : (0 : ℚ) < (ratio m e k).2 := by exact_mod_cast ratio_pos m e k
      rw [← ratio_div, same, div_self pos.ne']
    rw [number, unpacked, value_positive, ← zpow_natCast]
    exact eq_of_div_eq_one one

theorem ten_zpow_of_nonneg {e : ℤ} (whole : 0 ≤ e) : (10 : ℚ) ^ e = 10 ^ e.natAbs := by
  rw [← zpow_natCast, Int.natAbs_of_nonneg whole]

theorem ten_zpow_of_nonpos {e : ℤ} (part : e ≤ 0) : (10 : ℚ) ^ e = (10 ^ e.natAbs)⁻¹ := by
  rw [← zpow_natCast, ← zpow_neg, Int.ofNat_natAbs_of_nonpos part, neg_neg]

/-! ## With whole numbers -/

theorem mul_ten_zpow_pos {d : Nat} (pos : 0 < d) (e : ℤ) : (0 : ℚ) < d * 10 ^ e :=
  mul_pos (Nat.cast_pos.mpr pos) (zpow_pos (by norm_num) e)

/-- A decimal that is not far out of range is rounded once. -/
theorem ofScientific_yields {d : Nat} {e : ℤ} (pos : 0 < d) (least : -(2048 + (d.log2 : ℤ)) ≤ e)
    (most : e ≤ 2048) :
    Yields (UnpackedFloat.ofScientific Format.binary64 d e) (Binary64.nearest (d * 10 ^ e)) := by
  have positive := mul_ten_zpow_pos pos e
  have bits : (2 ^ Format.binary64.exponentBits : ℤ) = 2048 := rfl
  rw [UnpackedFloat.ofScientific, dif_neg pos.ne', if_neg (by rw [bits]; omega),
    if_neg (by rw [bits]; omega)]
  split
  next whole =>
    have same : e.toNat = e.natAbs := by omega
    have power : (10 : ℚ) ^ e = 10 ^ e.toNat := by rw [ten_zpow_of_nonneg whole, same]
    have value_eq : ((d <<< 53 * 10 ^ e.toNat : Nat) * 2 ^ (-53 : ℤ) : ℚ) = d * 10 ^ e := by
      rw [power, Nat.shiftLeft_eq, zpow_neg]
      push_cast
      norm_num
      ring
    have located : Locates (.ofMantissaAndAccuracy (d <<< 53 * 10 ^ e.toNat) .exact)
        (d * 10 ^ e / 2 ^ (-53 : ℤ)) := by
      rw [← value_eq]
      exact mul_div_cancel_right₀ _ (two_zpow_pos _).ne'
    have fine : -53 ≤ quantumExp (d * 10 ^ e) := by
      have one : (1 : ℚ) ≤ d * 10 ^ e := by
        rw [power]
        exact_mod_cast Nat.mul_pos pos (Nat.pow_pos (by decide))
      exact (le_quantumExp_iff positive).mpr (.inl (le_trans (by norm_num) one))
    have rounded := roundWithAccuracy_yields .positive located positive fine
    rwa [Sign.apply, Int.cast_one, one_mul] at rounded
  next part =>
    have divisor : 0 < 10 ^ (-e).toNat := Nat.pow_pos (by decide)
    obtain ⟨located, fine⟩ := divCore_locates pos divisor 0 0
    have value_eq :
        (d * 2 ^ (0 : ℤ) / ((10 ^ (-e).toNat : Nat) * 2 ^ (0 : ℤ)) : ℚ) = d * 10 ^ e := by
      have same : (-e).toNat = e.natAbs := by omega
      rw [ten_zpow_of_nonpos (by omega), same]
      push_cast
      rw [mul_one, mul_one, div_eq_mul_inv]
    rw [value_eq] at located fine
    have rounded := roundWithAccuracy_yields .positive located positive fine
    rwa [Sign.apply, Int.cast_one, one_mul] at rounded

/-! ## With floats -/

theorem number_toUInt64 {d : Nat} (short : d < 2 ^ 53) : number d.toUInt64.toFloat = d := by
  have word : d.toUInt64.toNat = d := UInt64.toNat_ofNat_of_lt' (short.trans (by decide))
  rw [number_toFloat, word, nearest_natCast short]

theorem rounds_of_mul {x y : Float} (finite : x.isFinite = true) (also : y.isFinite = true) :
    Rounds (x * y) (number x * number y) where
  isFinite_iff := isFinite_mul_iff finite also
  number_eq small := number_mul ((isFinite_mul_iff finite also).mpr small)

theorem rounds_of_div {x y : Float} (finite : x.isFinite = true) (also : y.isFinite = true)
    (nonzero : number y ≠ 0) : Rounds (x / y) (number x / number y) where
  isFinite_iff := isFinite_div_iff finite also nonzero
  number_eq small := number_div finite also nonzero small

/-- A decimal that is not far out of range is rounded once, also where floats are used for it. -/
theorem rounds_ofScientific {d : Nat} {e : ℤ} (pos : 0 < d) (least : -(2048 + (d.log2 : ℤ)) ≤ e)
    (most : e ≤ 2048) :
    Rounds (Float.ofScientific d (decide (e < 0)) e.natAbs) (d * 10 ^ e) := by
  rw [Float.ofScientific]
  split
  next fast =>
    obtain ⟨short, few⟩ := fast
    obtain ⟨finite, power⟩ := isFinite_power ⟨e.natAbs, by omega⟩
    have digits := number_toUInt64 short
    split
    next negative =>
      have below := of_decide_eq_true negative
      have rounded := rounds_of_div (isFinite_toFloat d.toUInt64) finite (by rw [power]; positivity)
      rw [digits, power, div_eq_mul_inv, ← ten_zpow_of_nonpos below.le] at rounded
      exact rounded
    next whole =>
      have above : ¬ e < 0 := fun negative => whole (decide_eq_true negative)
      have rounded := rounds_of_mul (isFinite_toFloat d.toUInt64) finite
      rw [digits, power, ← ten_zpow_of_nonneg (not_lt.mp above)] at rounded
      exact rounded
  next =>
    have exponent :
        (if decide (e < 0) = true then Int.negOfNat e.natAbs else Int.ofNat e.natAbs) = e := by
      split
      next negative =>
        have below := of_decide_eq_true negative
        rw [Int.negOfNat_eq, Int.ofNat_eq_natCast]
        omega
      next whole =>
        have above : ¬ e < 0 := fun negative => whole (decide_eq_true negative)
        rw [Int.ofNat_eq_natCast]
        omega
    have yields := ofScientific_yields pos least most
    rw [exponent]
    exact ⟨yields.isFinite_pack, yields.value_pack⟩

/-! ## Of any size -/

/-- What is beyond all floats reaches the power of two after the largest one. -/
theorem two_pow_le_nearest {q : ℚ} (large : 10 ^ (309 : ℤ) ≤ q) :
    2 ^ 1024 ≤ Binary64.nearest q := by
  rw [← nearest_two_pow]
  exact nearest_mono (two_pow_lt_ten_pow.1.le.trans large)

/-- What is below all floats is at most half of the smallest one. -/
theorem nearest_eq_zero_of_le {q : ℚ} (nonneg : 0 ≤ q) (small : q ≤ 10 ^ (-324 : ℤ)) :
    Binary64.nearest q = 0 := by
  refine (nearest_eq_zero_iff nonneg).mpr ?_
  calc q ≤ 10 ^ (-324 : ℤ) := small
    _ ≤ (2 ^ 1075)⁻¹ := inv_anti₀ (by positivity) two_pow_lt_ten_pow.2.le
    _ = smallest / 2 := by
      rw [smallest, zpow_neg, pow_succ, mul_inv, div_eq_mul_inv]
      rfl

/-- A decimal is rounded once. -/
theorem rounds_nearest {d : Nat} {e : ℤ} (pos : 0 < d) (short : d < 2 ^ 128) :
    Rounds (nearest false d e) (d * 10 ^ e) := by
  have log : d.log2 < 128 := (Nat.log2_lt pos.ne').mpr short
  obtain ⟨low, high⟩ := ten_pow_log (k := d.log2) (by omega)
  have positive := mul_ten_zpow_pos pos e
  have guess : (d.log2 : ℤ) * 30103 / 100000 = (d.log2 * 30103 / 100000 : Nat) := by omega
  have enough : 2 ^ d.log2 ≤ d := Nat.log2_self_le pos.ne'
  have fewer : d < 2 ^ (d.log2 + 1) := Nat.lt_log2_self
  simp only [nearest, if_neg pos.ne', guess, if_neg Bool.false_ne_true]
  generalize d.log2 * 30103 / 100000 = g at *
  have ten : (0 : ℚ) < 10 ^ e := zpow_pos (by norm_num) e
  split_ifs with large small
  · have beyond : (2 ^ 1024 : ℚ) ≤ Binary64.nearest (d * 10 ^ e) := by
      refine two_pow_le_nearest ?_
      calc (10 : ℚ) ^ (309 : ℤ) ≤ 10 ^ (g + e) := zpow_le_zpow_right₀ (by norm_num) (by omega)
        _ = 10 ^ g * 10 ^ e := by rw [zpow_add₀ (by norm_num), zpow_natCast]
        _ ≤ d * 10 ^ e := mul_le_mul_of_nonneg_right (by exact_mod_cast low.trans enough) ten.le
    have huge := not_lt.mpr (beyond.trans (le_abs_self _))
    exact ⟨iff_of_false (by decide) huge, fun less => absurd less huge⟩
  · have vanishes : Binary64.nearest (d * 10 ^ e) = 0 := by
      refine nearest_eq_zero_of_le positive.le ?_
      have digits : (d : ℚ) ≤ 10 ^ (g + 2) := by
        have twice : 2 * 2 ^ d.log2 ≤ 10 * 10 ^ (g + 1) := by omega
        rw [pow_succ'] at fewer ⊢
        exact_mod_cast fewer.le.trans twice
      calc (d * 10 ^ e : ℚ) ≤ 10 ^ (g + 2) * 10 ^ e := mul_le_mul_of_nonneg_right digits ten.le
        _ = 10 ^ ((g + 2 : Nat) + e) := by rw [zpow_add₀ (by norm_num), zpow_natCast]
        _ ≤ 10 ^ (-324 : ℤ) := zpow_le_zpow_right₀ (by norm_num) (by push_cast; omega)
    have little : |Binary64.nearest (d * 10 ^ e)| < 2 ^ 1024 := by
      rw [vanishes, abs_zero]
      positivity
    exact ⟨iff_of_true (by decide) little, fun _ => vanishes.symm⟩
  · exact rounds_ofScientific pos (by omega) (by omega)

/-- A decimal that is rounded to the number of a float is read as that float. -/
theorem nearest_eq {x : Float} {d : Nat} {e : ℤ} (pos : 0 < d) (short : d < 2 ^ 128)
    (nonzero : number x ≠ 0) (same : Binary64.nearest (d * 10 ^ e) = number x) :
    nearest false d e = x := by
  have small : |Binary64.nearest (d * 10 ^ e)| < 2 ^ 1024 := same ▸ abs_number_lt x
  have number := (rounds_nearest pos short).number_eq small
  exact (eq_of_number_eq (same.symm.trans number.symm) nonzero).symm

/-- What is read as a finite float is rounded to its number. -/
theorem number_of_nearest {x : Float} {d : Nat} {e : ℤ} (pos : 0 < d) (short : d < 2 ^ 128)
    (finite : x.isFinite = true) (read : nearest false d e = x) :
    Binary64.nearest (d * 10 ^ e) = number x := by
  have rounds := rounds_nearest (e := e) pos short
  rw [read] at rounds
  exact (rounds.number_eq (rounds.isFinite_iff.mp finite)).symm

theorem nearest_true (d : Nat) (e : ℤ) : nearest true d e = -nearest false d e := rfl

end MotionRace.Decimal
