import MotionRace.Proofs.Binary64.Specials

/-!
# How near the nearest float is

Rounding moves a number by at most half of the distance of the floats around it. The other way
round, what is nearer to a float than half of the way to its neighbours is rounded to that float
(`nearest_eq_of_near`). Below a power of two the floats are twice as dense as above it, so the
neighbour below a power of two is at half of the distance.
-/

namespace MotionRace.Binary64

open Float.Model (UnpackedFloat Format)
open Float.Model.UnpackedFloat

/-! ## Whole numbers -/

theorem abs_roundEven_sub_le (x : ℚ) : |roundEven x - x| ≤ 1 / 2 := by
  have parts := Int.floor_add_fract x
  have nonneg := Int.fract_nonneg x
  have below := Int.fract_lt_one x
  unfold roundEven
  split_ifs with small large
  · rw [abs_le]
    constructor <;> linarith
  · push_cast
    rw [abs_le]
    constructor <;> linarith
  · have half : Int.fract x = 1 / 2 := le_antisymm (not_lt.mp large) (not_lt.mp small)
    have even : ((⌊x⌋ % 2 : ℤ) : ℚ) = 0 ∨ ((⌊x⌋ % 2 : ℤ) : ℚ) = 1 := by
      rcases Int.emod_two_eq_zero_or_one ⌊x⌋ with even | odd
      · exact .inl (by rw [even, Int.cast_zero])
      · exact .inr (by rw [odd, Int.cast_one])
    push_cast
    rw [abs_le]
    rcases even with zero | one
    · constructor <;> linarith
    · constructor <;> linarith

theorem roundEven_eq_of_abs_lt {x : ℚ} {n : ℤ} (near : |x - n| < 1 / 2) : roundEven x = n := by
  have rounded := abs_roundEven_sub_le x
  rw [abs_lt] at near
  rw [abs_le] at rounded
  have above : ((roundEven x : ℤ) : ℚ) < ((n + 1 : ℤ) : ℚ) := by
    push_cast
    linarith
  have below : ((n - 1 : ℤ) : ℚ) < ((roundEven x : ℤ) : ℚ) := by
    push_cast
    linarith
  have high : roundEven x < n + 1 := by exact_mod_cast above
  have low : n - 1 < roundEven x := by exact_mod_cast below
  omega

/-! ## Numbers around a float -/

theorem two_zpow_succ (e : ℤ) : (2 : ℚ) ^ (e + 1) = 2 * 2 ^ e := by
  rw [zpow_add_one₀ two_ne_zero, mul_comm]

theorem two_zpow_add_natCast (e : ℤ) (k : ℕ) : (2 : ℚ) ^ (e + k) = 2 ^ k * 2 ^ e := by
  rw [zpow_add₀ two_ne_zero, zpow_natCast, mul_comm]

/-- The exponent that belongs to a number is told by where it lies between powers of two. -/
theorem quantumExp_eq {x : ℚ} {e : ℤ} (pos : 0 < x) (below : x < 2 ^ 53 * 2 ^ e)
    (least : -1074 ≤ e) (above : 2 ^ 52 * 2 ^ e ≤ x ∨ e = -1074) : quantumExp x = e := by
  rw [← two_zpow_add_natCast] at below above
  apply le_antisymm
  · exact (quantumExp_le_iff pos).mpr ⟨below, least⟩
  · exact (le_quantumExp_iff pos).mpr (above.imp_right le_of_eq)

/-- Rounding moves a number by at most half of the distance of the floats around it. -/
theorem abs_nearest_sub_le (x : ℚ) : |nearest x - x| ≤ 2 ^ quantumExp x / 2 := by
  have unit := two_zpow_pos (quantumExp x)
  have half := abs_roundEven_sub_le (x / 2 ^ quantumExp x)
  have scaled : nearest x - x =
      (roundEven (x / 2 ^ quantumExp x) - x / 2 ^ quantumExp x) * 2 ^ quantumExp x := by
    rw [sub_mul, div_mul_cancel₀ _ unit.ne']
    rfl
  calc |nearest x - x|
      = |roundEven (x / 2 ^ quantumExp x) - x / 2 ^ quantumExp x| * 2 ^ quantumExp x := by
        rw [scaled, abs_mul, abs_of_pos unit]
    _ ≤ 1 / 2 * 2 ^ quantumExp x := mul_le_mul_of_nonneg_right half unit.le
    _ = 2 ^ quantumExp x / 2 := by ring

/-- What is not below the normal floats is moved by a small part of itself. -/
theorem abs_nearest_sub_le_div {x : ℚ} (normal : 2 ^ (-1022 : ℤ) ≤ x) :
    |nearest x - x| ≤ x / 2 ^ 53 := by
  have pos : 0 < x := (two_zpow_pos _).trans_le normal
  have size : 2 ^ 52 * 2 ^ quantumExp x ≤ x := by
    rw [← two_zpow_add_natCast]
    rcases (le_quantumExp_iff pos).mp (le_refl _) with above | lowest
    · exact above
    · have least : quantumExp x = -1074 := le_antisymm lowest (le_max_right _ _)
      rw [least]
      exact normal
  calc |nearest x - x| ≤ 2 ^ quantumExp x / 2 := abs_nearest_sub_le x
    _ = 2 ^ 52 * 2 ^ quantumExp x / 2 ^ 53 := by ring
    _ ≤ x / 2 ^ 53 := div_le_div_of_nonneg_right size (by positivity)

/-- Whole numbers are floats up to the length of a mantissa. -/
theorem nearest_natCast {n : Nat} (short : n < 2 ^ 53) : nearest n = n := by
  rcases Nat.eq_zero_or_pos n with rfl | positive
  · rw [Nat.cast_zero, nearest_zero]
  · have pos : (0 : ℚ) < n := by exact_mod_cast positive
    have fine : quantumExp n ≤ 0 :=
      (quantumExp_le_iff pos).mpr ⟨by rw [zero_add]; exact_mod_cast short, by decide⟩
    obtain ⟨k, multiple⟩ := exists_multiple n fine
    refine nearest_eq_self ⟨k, ?_⟩
    rwa [zpow_zero, mul_one, Int.cast_natCast] at multiple

theorem nearest_eq_of_quantumExp {x : ℚ} {n e : ℤ} (quantum : quantumExp x = e)
    (near : |x - n * 2 ^ e| < 2 ^ e / 2) : nearest x = n * 2 ^ e := by
  have unit := two_zpow_pos e
  have scaled : |x / 2 ^ e - n| < 1 / 2 := by
    have split : x / 2 ^ e - n = (x - n * 2 ^ e) / 2 ^ e := by
      rw [sub_div, mul_div_cancel_right₀ _ unit.ne']
    rw [split, abs_div, abs_of_pos unit, div_lt_iff₀ unit]
    linarith
  rw [nearest, quantum, roundEven_eq_of_abs_lt scaled]

/-- A number between a power of two and the float below it. -/
theorem nearest_eq_of_below_power {e : ℤ} {x : ℚ} (least : -1074 < e) (below : x < 2 ^ 52 * 2 ^ e)
    (near : |x - 2 ^ 52 * 2 ^ e| < 2 ^ e / 4) : nearest x = 2 ^ 52 * 2 ^ e := by
  have twice : (2 : ℚ) ^ e = 2 * 2 ^ (e - 1) := by
    rw [← two_zpow_succ, sub_add_cancel]
  have unit := two_zpow_pos (e - 1)
  have same : (2 ^ 52 * 2 ^ e : ℚ) = (2 ^ 53 : ℤ) * 2 ^ (e - 1) := by
    rw [twice]
    push_cast
    ring
  obtain ⟨low, -⟩ := abs_lt.mp near
  rw [same, twice] at near
  rw [twice] at below low
  rw [same]
  have quantum : quantumExp x = e - 1 := by
    refine quantumExp_eq ?_ ?_ (by omega) (.inl ?_)
    · linarith
    · linarith
    · linarith
  exact nearest_eq_of_quantumExp quantum (near.trans_eq (by ring))

/-- What is near enough to a float is rounded to it. A power of two has a nearer neighbour below it
than above. -/
theorem nearest_eq_of_near {sign : Sign} {m : ℕ} {e : ℤ} {pos : 0 < m} {x : ℚ}
    (canonical : IsCanonical (.finite sign m e pos))
    (near : |x - m * 2 ^ e| < 2 ^ e / 2) (nearer : m = 2 ^ 52 → |x - m * 2 ^ e| < 2 ^ e / 4) :
    nearest x = m * 2 ^ e := by
  obtain ⟨small, least, normal⟩ := canonical
  have unit := two_zpow_pos e
  obtain ⟨low, high⟩ := abs_lt.mp near
  have above {n : ℕ} (le : n ≤ m) : (n * 2 ^ e : ℚ) ≤ m * 2 ^ e :=
    mul_le_mul_of_nonneg_right (by exact_mod_cast le) unit.le
  have below {n : ℕ} (le : m ≤ n) : (m * 2 ^ e : ℚ) ≤ n * 2 ^ e :=
    mul_le_mul_of_nonneg_right (by exact_mod_cast le) unit.le
  have positive : 0 < x := by
    have one := above (n := 1) pos
    rw [Nat.cast_one, one_mul] at one
    linarith
  have short : x < 2 ^ 53 * 2 ^ e := by
    have bound := below (n := 2 ^ 53 - 1) (by omega)
    norm_num at bound ⊢
    linarith
  rcases lt_or_ge x (2 ^ 52 * 2 ^ e) with lower | upper
  · rcases normal with long | lowest
    · -- Only the power of two itself has a number so near below that power.
      have power : m = 2 ^ 52 := by
        by_contra other
        have bound := above (n := 2 ^ 52 + 1) (by omega)
        norm_num at bound lower
        linarith
      have close := nearer power
      rw [power] at close ⊢
      push_cast at close ⊢
      rcases least.eq_or_lt with lowest | larger
      · have quantum := quantumExp_eq positive short least (.inr lowest.symm)
        refine nearest_eq_of_quantumExp (n := 2 ^ 52) quantum ?_
        push_cast
        linarith
      · exact nearest_eq_of_below_power larger lower close
    · have quantum := quantumExp_eq positive short least (.inr lowest)
      exact nearest_eq_of_quantumExp (n := m) quantum near
  · have quantum := quantumExp_eq positive short least (.inl upper)
    exact nearest_eq_of_quantumExp (n := m) quantum near

end MotionRace.Binary64
