import Mathlib.Algebra.Order.Group.Pointwise.Interval
import Mathlib.Data.Int.Log
import Mathlib.Data.Rat.Floor
import Mathlib.Tactic.Linarith
import Mathlib.Tactic.FieldSimp
import Mathlib.Tactic.Ring

/-!
# Rounding to the nearest float

A float is a whole multiple of a power of two that depends on how large it is: 53 bits are kept, and
nothing below the smallest subnormal float. `nearest` rounds a rational number to such a multiple,
ties to even. It takes no account of the largest float.

Rounding keeps the order (`nearest_mono`) and what is a float already (`nearest_eq_self`).
-/

namespace MotionRace.Binary64

/-! ## Whole numbers -/

/-- The nearest whole number, and of two that are equally near the even one. -/
def roundEven (x : ℚ) : ℤ :=
  if Int.fract x < 1 / 2 then ⌊x⌋
  else if 1 / 2 < Int.fract x then ⌊x⌋ + 1
  else ⌊x⌋ + ⌊x⌋ % 2

theorem floor_le_roundEven (x : ℚ) : ⌊x⌋ ≤ roundEven x := by
  unfold roundEven
  split
  · exact le_refl _
  · split <;> omega

theorem roundEven_le (x : ℚ) : roundEven x ≤ ⌊x⌋ + 1 := by
  unfold roundEven
  split
  · omega
  · split <;> omega

@[simp] theorem roundEven_intCast (n : ℤ) : roundEven n = n := by
  rw [roundEven, Int.fract_intCast, if_pos (by norm_num), Int.floor_intCast]

theorem roundEven_mono {x y : ℚ} (le : x ≤ y) : roundEven x ≤ roundEven y := by
  rcases (Int.floor_mono le).lt_or_eq with lt | same
  · calc roundEven x ≤ ⌊x⌋ + 1 := roundEven_le x
      _ ≤ ⌊y⌋ := lt
      _ ≤ roundEven y := floor_le_roundEven y
  · -- Between two whole numbers only the fractions count.
    have fracts : Int.fract x ≤ Int.fract y := by
      rw [Int.fract, Int.fract, same]
      linarith
    unfold roundEven
    rw [same]
    split_ifs <;> first | omega | linarith

/-- A number that is not whole has its fraction turned round by a change of sign. -/
theorem roundEven_neg (x : ℚ) : roundEven (-x) = -roundEven x := by
  have parts := Int.floor_add_fract x
  by_cases whole : Int.fract x = 0
  · obtain ⟨n, rfl⟩ : ∃ n : ℤ, x = n := ⟨⌊x⌋, by rw [← parts, whole]; simp⟩
    rw [← Int.cast_neg, roundEven_intCast, roundEven_intCast]
  · have below := Int.fract_lt_one x
    have fract : Int.fract (-x) = 1 - Int.fract x := Int.fract_neg whole
    have floor : ⌊-x⌋ = -⌊x⌋ - 1 := by
      have sum := Int.floor_add_fract (-x)
      have cast : ((⌊-x⌋ : ℤ) : ℚ) = ((-⌊x⌋ - 1 : ℤ) : ℚ) := by
        push_cast
        linarith
      exact_mod_cast cast
    rw [roundEven, roundEven, fract, floor]
    split_ifs <;> first | omega | linarith

/-! ## Floats -/

/-- The exponent of the power of two of which the floats near a number are multiples. -/
def quantumExp (x : ℚ) : ℤ := max (Int.log 2 |x| - 52) (-1074)

/-- The float that is nearest to a number, ties to even. -/
def nearest (x : ℚ) : ℚ := roundEven (x / 2 ^ quantumExp x) * 2 ^ quantumExp x

/-- Whether a number is a float. -/
def IsGrid (x : ℚ) : Prop := ∃ n : ℤ, x = n * 2 ^ quantumExp x

theorem two_zpow_pos (e : ℤ) : (0 : ℚ) < 2 ^ e := zpow_pos two_pos e

@[simp] theorem quantumExp_abs (x : ℚ) : quantumExp |x| = quantumExp x := by
  rw [quantumExp, quantumExp, abs_abs]

@[simp] theorem quantumExp_neg (x : ℚ) : quantumExp (-x) = quantumExp x := by
  rw [quantumExp, quantumExp, abs_neg]

theorem quantumExp_of_pos {x : ℚ} (pos : 0 < x) :
    quantumExp x = max (Int.log 2 x - 52) (-1074) := by
  rw [quantumExp, abs_of_pos pos]

theorem quantumExp_le_iff {x : ℚ} (pos : 0 < x) {e : ℤ} :
    quantumExp x ≤ e ↔ x < 2 ^ (e + 53) ∧ -1074 ≤ e := by
  have log : x < 2 ^ (e + 53) ↔ Int.log 2 x < e + 53 := Int.lt_zpow_iff_log_lt one_lt_two pos
  rw [quantumExp_of_pos pos, log, max_le_iff]
  omega

theorem le_quantumExp_iff {x : ℚ} (pos : 0 < x) {e : ℤ} :
    e ≤ quantumExp x ↔ 2 ^ (e + 52) ≤ x ∨ e ≤ -1074 := by
  have log : 2 ^ (e + 52) ≤ x ↔ e + 52 ≤ Int.log 2 x := Int.zpow_le_iff_le_log one_lt_two pos
  rw [quantumExp_of_pos pos, log, le_max_iff]
  omega

theorem nearest_neg (x : ℚ) : nearest (-x) = -nearest x := by
  rw [nearest, nearest, quantumExp_neg, neg_div, roundEven_neg, Int.cast_neg, neg_mul]

@[simp] theorem nearest_zero : nearest 0 = 0 := by
  have whole : roundEven 0 = 0 := roundEven_intCast 0
  rw [nearest, zero_div, whole, Int.cast_zero, zero_mul]

theorem nearest_eq_self {x : ℚ} (grid : IsGrid x) : nearest x = x := by
  obtain ⟨n, same⟩ := grid
  have pos := two_zpow_pos (quantumExp x)
  have multiple : x / 2 ^ quantumExp x = n := by
    rw [div_eq_iff pos.ne']
    exact same
  rw [nearest, multiple, roundEven_intCast, ← same]

/-- A multiple of a larger power of two is one of a smaller power. -/
theorem exists_multiple (n : ℤ) {fine coarse : ℤ} (le : fine ≤ coarse) :
    ∃ k : ℤ, (n * 2 ^ coarse : ℚ) = k * 2 ^ fine := by
  refine ⟨n * 2 ^ (coarse - fine).toNat, ?_⟩
  have split : coarse = (coarse - fine).toNat + fine := by omega
  conv_lhs => rw [split, zpow_add₀ two_ne_zero, zpow_natCast]
  push_cast
  ring

/-- Rounding does not pass a multiple of a power of two that is coarse enough. -/
theorem nearest_le_of_le {x : ℚ} {n e : ℤ} (coarse : quantumExp x ≤ e) (le : x ≤ n * 2 ^ e) :
    nearest x ≤ n * 2 ^ e := by
  have pos := two_zpow_pos (quantumExp x)
  obtain ⟨k, same⟩ := exists_multiple n coarse
  rw [same] at le ⊢
  have below : roundEven (x / 2 ^ quantumExp x) ≤ k := by
    rw [← roundEven_intCast k]
    exact roundEven_mono ((div_le_iff₀ pos).mpr le)
  exact mul_le_mul_of_nonneg_right (Int.cast_le.mpr below) pos.le

theorem le_nearest_of_le {x : ℚ} {n e : ℤ} (coarse : quantumExp x ≤ e) (le : n * 2 ^ e ≤ x) :
    n * 2 ^ e ≤ nearest x := by
  have flipped : nearest (-x) ≤ (-n : ℤ) * 2 ^ e := by
    refine nearest_le_of_le ((quantumExp_neg x).trans_le coarse) ?_
    push_cast
    linarith
  rw [nearest_neg] at flipped
  push_cast at flipped
  linarith

theorem quantumExp_mono {x y : ℚ} (pos : 0 < x) (le : x ≤ y) : quantumExp x ≤ quantumExp y := by
  have log : Int.log 2 x ≤ Int.log 2 y := Int.log_mono_right pos le
  rw [quantumExp_of_pos pos, quantumExp_of_pos (pos.trans_le le)]
  exact max_le_max_right _ (Int.sub_le_sub_right log 52)

theorem nearest_mono_of_pos {x y : ℚ} (pos : 0 < x) (le : x ≤ y) : nearest x ≤ nearest y := by
  rcases (quantumExp_mono pos le).eq_or_lt with same | finer
  · -- The same multiples are in reach of both.
    have unit := two_zpow_pos (quantumExp y)
    rw [nearest, nearest, same]
    have rounded := roundEven_mono (div_le_div_of_nonneg_right le unit.le)
    exact mul_le_mul_of_nonneg_right (Int.cast_le.mpr rounded) unit.le
  · -- The power of two that `y` has reached lies between them.
    have large := pos.trans_le le
    have fine := quantumExp_of_pos pos
    have scale := quantumExp_of_pos large
    have apart : x < 2 ^ Int.log 2 y := (Int.lt_zpow_iff_log_lt one_lt_two pos).mpr (by omega)
    have reached : (2 : ℚ) ^ Int.log 2 y ≤ y := Int.zpow_log_le_self one_lt_two large
    calc nearest x ≤ (1 : ℤ) * 2 ^ Int.log 2 y :=
          nearest_le_of_le (by omega) (by rw [Int.cast_one, one_mul]; exact apart.le)
      _ ≤ nearest y := le_nearest_of_le (by omega) (by rw [Int.cast_one, one_mul]; exact reached)

theorem nearest_nonneg {x : ℚ} (nonneg : 0 ≤ x) : 0 ≤ nearest x := by
  have bound := le_nearest_of_le (n := 0) (le_refl (quantumExp x)) (by simpa using nonneg)
  simpa using bound

theorem nearest_mono {x y : ℚ} (le : x ≤ y) : nearest x ≤ nearest y := by
  rcases lt_or_ge 0 x with pos | nonpos
  · exact nearest_mono_of_pos pos le
  · have below : nearest x ≤ 0 := by
      have flipped := nearest_nonneg (neg_nonneg.mpr nonpos)
      rw [nearest_neg] at flipped
      linarith
    rcases le_or_gt 0 y with nonneg | neg
    · exact below.trans (nearest_nonneg nonneg)
    · have flipped := nearest_mono_of_pos (neg_pos.mpr neg) (neg_le_neg le)
      rw [nearest_neg, nearest_neg] at flipped
      linarith

/-! ## Powers of two -/

theorem nearest_two_pow (k : ℕ) : nearest (2 ^ k) = 2 ^ k := by
  have coarse : quantumExp (2 ^ (k : ℤ)) ≤ k :=
    (quantumExp_le_iff (two_zpow_pos k)).mpr
      ⟨zpow_lt_zpow_right₀ one_lt_two (by omega), by omega⟩
  obtain ⟨n, multiple⟩ := exists_multiple 1 coarse
  rw [Int.cast_one, one_mul] at multiple
  rw [← zpow_natCast]
  exact nearest_eq_self ⟨n, multiple⟩

/-- Rounding does not pass a power of two. -/
theorem abs_nearest_le {x : ℚ} {k : ℕ} (le : |x| ≤ 2 ^ k) : |nearest x| ≤ 2 ^ k := by
  obtain ⟨low, high⟩ := abs_le.mp le
  refine abs_le.mpr ⟨?_, ?_⟩
  · rw [← nearest_two_pow, ← nearest_neg]
    exact nearest_mono low
  · rw [← nearest_two_pow]
    exact nearest_mono high

/-! ## Between two floats -/

theorem monotone_nearest : Monotone nearest := fun _ _ => nearest_mono

/-- A share of a distance is rounded to a part of it. -/
theorem nearest_mul_mem {d t : ℚ} (float : nearest d = d) (nonneg : 0 ≤ t) (most : t ≤ 1) :
    nearest (d * t) ∈ Set.uIcc 0 d := by
  have share : d * t ∈ Set.uIcc 0 d := by
    rcases le_total 0 d with up | down
    · exact Set.mem_uIcc_of_le (mul_nonneg up nonneg) (mul_le_of_le_one_right up most)
    · exact Set.mem_uIcc_of_ge (le_mul_of_le_one_right down most)
        (mul_nonpos_of_nonpos_of_nonneg down nonneg)
  have rounded := monotone_nearest.mapsTo_uIcc share
  rwa [nearest_zero, float] at rounded

/-- A part of a distance leads to somewhere between the two ends, as rounding has them. -/
theorem nearest_add_mem {x d part : ℚ} (float : nearest x = x) (within : part ∈ Set.uIcc 0 d) :
    nearest (x + part) ∈ Set.uIcc x (nearest (x + d)) := by
  have moved : x + part ∈ Set.uIcc (x + 0) (x + d) := (add_right_mono (a := x)).mapsTo_uIcc within
  have rounded := monotone_nearest.mapsTo_uIcc moved
  rwa [add_zero, float] at rounded

end MotionRace.Binary64
