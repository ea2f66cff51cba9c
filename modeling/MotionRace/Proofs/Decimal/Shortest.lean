import MotionRace.Decimal.Shortest
import MotionRace.Proofs.Decimal.Nearest

/-!
# What is printed reads back

The digits of a float are searched for on finer and finer grids, and a decimal is taken when it is
read as the float. So all that can go wrong is that none is found; but the nearest decimal of
seventeen digits always is read as the float, since floats are farther apart than such decimals.

Main statement: `shortest_readsAs`.
-/

namespace MotionRace.Decimal

open Float.Model (UnpackedFloat)
open Binary64

variable {x : Float} {m : Nat} {e : ℤ} {mantissaPos : 0 < m}

/-! ## The leading digit -/

/-- The power of ten that is guessed from the number of bits is at most one too small. -/
theorem ten_zpow_log {t : ℤ} (least : -1075 < t) (most : t < 1075) :
    (10 : ℚ) ^ (t * 30103 / 100000) ≤ 2 ^ t ∧ (2 : ℚ) ^ t ≤ 10 ^ (t * 30103 / 100000 + 1) := by
  obtain ⟨k, rfl | rfl⟩ := Int.eq_nat_or_neg t
  · obtain ⟨low, high⟩ := ten_pow_log (k := k) (by omega)
    have guess : (k : ℤ) * 30103 / 100000 = (k * 30103 / 100000 : Nat) := by omega
    rw [guess]
    exact ⟨by exact_mod_cast low, by exact_mod_cast high.le⟩
  · obtain ⟨low, high⟩ := ten_pow_log (k := k) (by omega)
    rcases Nat.eq_zero_or_pos k with rfl | pos
    · norm_num
    · have part : k * 30103 % 100000 ≠ 0 := by
        have table : ∀ k < 1075, 0 < k → k * 30103 % 100000 ≠ 0 := by decide +kernel
        exact table k (by omega) pos
      have guess : -(k : ℤ) * 30103 / 100000 = -(k * 30103 / 100000 + 1 : Nat) := by
        rw [neg_mul, ← Nat.cast_ofNat, ← Nat.cast_mul]
        generalize k * 30103 = a at part ⊢
        omega
      rw [guess, zpow_neg, zpow_neg, zpow_natCast, zpow_natCast]
      constructor
      · exact inv_anti₀ (by positivity) (by exact_mod_cast high.le)
      · have exponent :
            -((k * 30103 / 100000 + 1 : Nat) : ℤ) + 1 = -(k * 30103 / 100000 : Nat) := by
          omega
        rw [exponent, zpow_neg, zpow_natCast]
        exact inv_anti₀ (by positivity) (by exact_mod_cast low)

theorem reachesPower_iff (m : Nat) (e power : ℤ) :
    reachesPower m e power = true ↔ (10 : ℚ) ^ power ≤ m * 2 ^ e := by
  have den : (0 : ℚ) < (ratio m e power).2 := by exact_mod_cast ratio_pos m e power
  have ten : (0 : ℚ) < 10 ^ power := zpow_pos (by norm_num) power
  rw [← one_le_div ten, ← ratio_div, one_le_div den, Nat.cast_le]
  exact decide_eq_true_iff

/-- The leading digit stands at this power of ten. -/
theorem leadingPower_spec (mantissaPos : 0 < m) (short : m < 2 ^ 53) (least : -1074 ≤ e)
    (most : e ≤ 971) :
    (10 : ℚ) ^ leadingPower m e ≤ m * 2 ^ e ∧ (m * 2 ^ e : ℚ) < 10 ^ (leadingPower m e + 1) := by
  have bits : m.log2 < 53 := (Nat.log2_lt mantissaPos.ne').mpr short
  obtain ⟨low, high⟩ := ten_zpow_log (t := m.log2 + e) (by omega) (by omega)
  have unit := two_zpow_pos e
  have split : (2 : ℚ) ^ (m.log2 + e) = 2 ^ m.log2 * 2 ^ e := by
    rw [zpow_add₀ two_ne_zero, zpow_natCast]
  have above : (2 ^ m.log2 * 2 ^ e : ℚ) ≤ m * 2 ^ e :=
    mul_le_mul_of_nonneg_right (by exact_mod_cast Nat.log2_self_le mantissaPos.ne') unit.le
  have below : (m * 2 ^ e : ℚ) < 2 * (2 ^ m.log2 * 2 ^ e) := by
    rw [← mul_assoc, ← pow_succ']
    exact mul_lt_mul_of_pos_right (by exact_mod_cast Nat.lt_log2_self) unit
  rw [split] at low high
  rw [leadingPower]
  generalize (m.log2 + e) * 30103 / 100000 = guess at *
  have next : (10 : ℚ) ^ (guess + 1 + 1) = 10 * 10 ^ (guess + 1) := by
    rw [zpow_add_one₀ (by norm_num), mul_comm]
  have ten : (0 : ℚ) < 10 ^ (guess + 1) := zpow_pos (by norm_num) _
  split_ifs with reached
  · refine ⟨(reachesPower_iff m e _).mp reached, ?_⟩
    rw [next]
    linarith
  · exact ⟨low.trans above, not_le.mp fun le => reached ((reachesPower_iff m e _).mpr le)⟩

/-! ## Neighbours on a grid -/

theorem roundRatio_mem (tie : Tie) (num den : Nat) :
    num / den ≤ roundRatio tie num den ∧ roundRatio tie num den ≤ num / den + 1 := by
  simp only [roundRatio]
  split_ifs
  · omega
  · omega
  · cases tie with
    | up => exact ⟨Nat.le_succ _, le_refl _⟩
    | toEven =>
      dsimp only
      omega

theorem le_of_mem_neighbours {tie : Tie} {num den n : Nat} (mem : n ∈ neighbours tie num den) :
    n ≤ num / den + 1 := by
  have bounds := roundRatio_mem tie num den
  rw [neighbours] at mem
  dsimp only at mem
  split_ifs at mem
  · rw [List.mem_singleton] at mem
    omega
  · rcases List.mem_pair.mp mem with rfl | rfl <;> omega

/-- Either way of breaking a tie moves a quotient by at most one half. -/
theorem abs_roundRatio_sub_le (tie : Tie) (num : Nat) {den : Nat} (pos : 0 < den) :
    |(roundRatio tie num den - num / den : ℚ)| ≤ 1 / 2 := by
  have large : (0 : ℚ) < den := by exact_mod_cast pos
  have proper : num % den < den := Nat.mod_lt _ pos
  have quotient := div_eq_add_mod_div num pos
  simp only [roundRatio]
  generalize num / den = low at *
  generalize num % den = rest at *
  have nonneg : (0 : ℚ) ≤ rest / den := by positivity
  have below : (rest / den : ℚ) < 1 := (div_lt_one large).mpr (by exact_mod_cast proper)
  have down (le : 2 * rest ≤ den) : |(low - num / den : ℚ)| ≤ 1 / 2 := by
    have half : (rest / den : ℚ) ≤ 1 / 2 := by
      rw [div_le_div_iff₀ large two_pos, one_mul, mul_comm]
      exact_mod_cast le
    rw [quotient, abs_le]
    constructor <;> linarith
  have up (ge : den ≤ 2 * rest) : |((low + 1 : Nat) - num / den : ℚ)| ≤ 1 / 2 := by
    have half : (1 / 2 : ℚ) ≤ rest / den := by
      rw [div_le_div_iff₀ two_pos large, one_mul, mul_comm]
      exact_mod_cast ge
    rw [quotient, abs_le]
    push_cast
    constructor <;> linarith
  split_ifs with less more
  · exact down less.le
  · exact up more.le
  · cases tie with
    | up => exact up (not_lt.mp less)
    | toEven =>
      dsimp only
      rcases Nat.mod_two_eq_zero_or_one low with even | odd
      · rw [even, add_zero]
        exact down (not_lt.mp more)
      · rw [odd]
        exact up (not_lt.mp less)

theorem ratio_div_lt {unit : ℤ} {k : Nat} (below : (m * 2 ^ e : ℚ) < 10 ^ (unit + k)) :
    (ratio m e unit).1 / (ratio m e unit).2 < 10 ^ k := by
  have den : (0 : ℚ) < (ratio m e unit).2 := by exact_mod_cast ratio_pos m e unit
  have ten : (0 : ℚ) < 10 ^ unit := zpow_pos (by norm_num) unit
  rw [zpow_add₀ (by norm_num), zpow_natCast, mul_comm (10 ^ unit : ℚ), ← div_lt_iff₀ ten,
    ← ratio_div, div_lt_iff₀ den] at below
  exact (Nat.div_lt_iff_lt_mul (ratio_pos m e unit)).mpr (by exact_mod_cast below)

theorem le_ratio_div {unit : ℤ} {k : Nat} (above : 10 ^ (unit + k) ≤ (m * 2 ^ e : ℚ)) :
    10 ^ k ≤ (ratio m e unit).1 / (ratio m e unit).2 := by
  have den : (0 : ℚ) < (ratio m e unit).2 := by exact_mod_cast ratio_pos m e unit
  have ten : (0 : ℚ) < 10 ^ unit := zpow_pos (by norm_num) unit
  rw [zpow_add₀ (by norm_num), zpow_natCast, mul_comm (10 ^ unit : ℚ), ← le_div_iff₀ ten,
    ← ratio_div, le_div_iff₀ den] at above
  exact (Nat.le_div_iff_mul_le (ratio_pos m e unit)).mpr (by exact_mod_cast above)

/-- On a grid the nearest decimal is off by half a step at most. -/
theorem abs_roundRatio_mul_sub_le (tie : Tie) (m : Nat) (e unit : ℤ) :
    |(roundRatio tie (ratio m e unit).1 (ratio m e unit).2 * 10 ^ unit - m * 2 ^ e : ℚ)| ≤
      10 ^ unit / 2 := by
  have rounded := abs_roundRatio_sub_le tie (ratio m e unit).1 (ratio_pos m e unit)
  have ten : (0 : ℚ) < 10 ^ unit := zpow_pos (by norm_num) unit
  rw [ratio_div] at rounded
  set d := roundRatio tie (ratio m e unit).1 (ratio m e unit).2
  calc |(d * 10 ^ unit - m * 2 ^ e : ℚ)| = |(d - m * 2 ^ e / 10 ^ unit : ℚ)| * 10 ^ unit := by
        rw [← abs_of_pos ten, ← abs_mul, abs_of_pos ten, sub_mul, div_mul_cancel₀ _ ten.ne']
    _ ≤ 1 / 2 * 10 ^ unit := by gcongr
    _ = 10 ^ unit / 2 := by ring

/-! ## What is found -/

/-- Whether a decimal of few digits is rounded to the number of a float. -/
structure Scientific.ReadsAs (s : Scientific) (x : Float) : Prop where
  pos : 0 < s.digits
  few : s.digits ≤ 10 ^ 17
  nearest_eq : Binary64.nearest (s.digits * 10 ^ s.exponent) = number x

theorem Scientific.readsAs_of_readsBack {s : Scientific} (finite : x.isFinite = true)
    (nonzero : number x ≠ 0) (few : s.digits ≤ 10 ^ 17) (reads : s.readsBack x = true) :
    s.ReadsAs x := by
  have same : nearest false s.digits s.exponent = x := eq_of_toBits_eq (eq_of_beq reads)
  have pos : 0 < s.digits := by
    by_contra notPos
    obtain noDigits : s.digits = 0 := by omega
    have zero : x = Float.ofBits 0 := by
      rw [← same, noDigits]
      simp [nearest]
    exact nonzero (by rw [zero]; rfl)
  exact ⟨pos, few, number_of_nearest pos (by omega) finite same⟩

section Search

variable (tie : Tie) (unpacked : x.toModel.unpack = .finite .positive m e mantissaPos)

include unpacked

theorem number_of_unpack : number x = m * 2 ^ e := by
  rw [number, unpacked, value_positive]

theorem leadingPower_of_unpack :
    (10 : ℚ) ^ leadingPower m e ≤ m * 2 ^ e ∧ (m * 2 ^ e : ℚ) < 10 ^ (leadingPower m e + 1) := by
  have canonical := isCanonical x
  have fits : Fits x.toModel.unpack := (canonical_unpack _).2
  rw [unpacked] at canonical fits
  exact leadingPower_spec mantissaPos canonical.1 canonical.2.1 fits

/-- On the grid of seventeen digits the nearest decimal reads back. -/
theorem readsAs_seventeen :
    let unit := leadingPower m e - 16
    Scientific.ReadsAs ⟨roundRatio tie (ratio m e unit).1 (ratio m e unit).2, unit⟩ x := by
  intro unit
  have canonical := isCanonical x
  rw [unpacked] at canonical
  obtain ⟨low, high⟩ := leadingPower_of_unpack unpacked
  have rounded := abs_roundRatio_mul_sub_le tie m e unit
  have bounds := roundRatio_mem tie (ratio m e unit).1 (ratio m e unit).2
  have reached : (10 : ℚ) ^ (unit + (16 : Nat)) ≤ m * 2 ^ e := by
    simpa only [unit, Nat.cast_ofNat, sub_add_cancel] using low
  have below : (m * 2 ^ e : ℚ) < 10 ^ (unit + (17 : Nat)) := by
    have exponent : unit + (17 : Nat) = leadingPower m e + 1 := by omega
    rwa [exponent]
  have least := le_ratio_div reached
  have most := ratio_div_lt below
  generalize roundRatio tie (ratio m e unit).1 (ratio m e unit).2 = d at *
  have near : |(d * 10 ^ unit - m * 2 ^ e : ℚ)| ≤ m * 2 ^ e / (2 * 10 ^ 16) := by
    refine rounded.trans ?_
    rw [zpow_add₀ (by norm_num), zpow_natCast] at reached
    rw [le_div_iff₀ (by positivity)]
    linarith
  have quantum := two_zpow_pos e
  refine ⟨by dsimp only; omega, by dsimp only; omega, ?_⟩
  rw [number_of_unpack unpacked]
  -- Half a step of seventeen digits is less than half of the way to the next float, and less than
  -- a quarter of it where the float is a power of two.
  refine nearest_eq_of_near canonical (near.trans_lt ?_) fun power => near.trans_lt ?_
  · have short : (m : ℚ) < 2 ^ 53 := by exact_mod_cast canonical.1
    calc (m * 2 ^ e / (2 * 10 ^ 16) : ℚ) < 2 ^ 53 * 2 ^ e / (2 * 10 ^ 16) := by gcongr
      _ ≤ 2 ^ e / 2 := by linarith
  · rw [power]
    push_cast
    linarith

theorem searchGrids_readsAs (fuel count : Nat) (le : count + fuel ≤ 18) :
    (searchGrids tie x m e fuel count).ReadsAs x := by
  induction fuel generalizing count with
  | zero => exact readsAs_seventeen tie unpacked
  | succ fuel ih =>
    unfold searchGrids
    split
    next s found =>
      obtain ⟨n, near, rfl⟩ := List.mem_map.mp (List.mem_of_find?_eq_some found)
      have finite : x.isFinite = true := by
        change x.toModel.unpack.isFinite = true
        rw [unpacked]
        rfl
      have value := number_of_unpack unpacked
      have few : n ≤ 10 ^ 17 := by
        have next := le_of_mem_neighbours near
        have below : (m * 2 ^ e : ℚ) < 10 ^ (leadingPower m e + 1 - count + count) := by
          rw [sub_add_cancel]
          exact (leadingPower_of_unpack unpacked).2
        have most : 10 ^ count ≤ 10 ^ 17 := Nat.pow_le_pow_right (by decide) (by omega)
        exact next.trans ((ratio_div_lt below).trans_le most)
      refine Scientific.readsAs_of_readsBack finite ?_ few (List.find?_some found)
      rw [value]
      exact (magnitude_pos mantissaPos e).ne'
    next => exact ih (count + 1) (by omega)

end Search

/-- Zeros at the end carry nothing. -/
theorem Scientific.ReadsAs.trim {s : Scientific} (reads : s.ReadsAs x) (fuel : Nat) :
    (s.trim fuel).ReadsAs x := by
  induction fuel generalizing s with
  | zero => exact reads
  | succ fuel ih =>
    rw [Scientific.trim]
    split
    next zero =>
      obtain ⟨pos, few, nearest⟩ := reads
      have tens : s.digits = 10 * (s.digits / 10) := by omega
      have same : ((s.digits / 10 : Nat) * 10 ^ (s.exponent + 1) : ℚ) =
          s.digits * 10 ^ s.exponent := by
        have cast : (s.digits : ℚ) = 10 * (s.digits / 10 : Nat) := by exact_mod_cast tens
        rw [cast, zpow_add_one₀ (by norm_num)]
        ring
      exact ih ⟨by dsimp only; omega, by dsimp only; omega, by rw [same, nearest]⟩
    next => exact reads

/-- The shortest decimal of a positive float is rounded to it. -/
theorem shortest_readsAs (tie : Tie)
    (unpacked : x.toModel.unpack = .finite .positive m e mantissaPos) :
    (shortest tie x m e).ReadsAs x :=
  (searchGrids_readsAs tie unpacked 17 1 (by decide)).trim 17

/-- However a decimal that is rounded to a float is spelled, it is read as the float. -/
theorem Scientific.ReadsAs.nearest_eq_signed {s : Scientific} (reads : s.ReadsAs x)
    (nonzero : number x ≠ 0) {d : Nat} {power : ℤ} (short : d < 2 ^ 128)
    (same : (d * 10 ^ power : ℚ) = s.digits * 10 ^ s.exponent) (negative : Bool) :
    nearest negative d power = if negative then -x else x := by
  have digitsPos : 0 < d := by
    by_contra notPos
    obtain rfl : d = 0 := by omega
    have positive := mul_ten_zpow_pos reads.pos s.exponent
    rw [← same, Nat.cast_zero, zero_mul] at positive
    exact lt_irrefl _ positive
  have positive : nearest false d power = x :=
    Decimal.nearest_eq digitsPos short nonzero (by rw [same, reads.nearest_eq])
  cases negative with
  | false => exact positive
  | true =>
    rw [nearest_true, positive]
    rfl

end MotionRace.Decimal
