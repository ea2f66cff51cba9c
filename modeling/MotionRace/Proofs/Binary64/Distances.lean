import MotionRace.Proofs.Binary64.Floats
import MotionRace.Trajectory
import Mathlib.Data.Nat.Sqrt

/-!
# When a distance is zero

A computed distance is a root of a sum of squares, and each of these steps rounds. A root and a sum
of squares are zero only if what goes into them is, but a square can round to zero: what is not
larger than half of the smallest float does. So configurations that differ can be at distance zero,
and this happens exactly if the square of each rounded difference is that small.

Main statement: `distance_eq_zero_iff`.
-/

namespace MotionRace.Binary64

open Float.Model (UnpackedFloat Format totalExponent)
open Float.Model.UnpackedFloat

/-! ## Differences -/

section Unpacked

variable {u v : UnpackedFloat}

theorem sub_eq_add (u v : UnpackedFloat) :
    UnpackedFloat.sub Format.binary64 u v = UnpackedFloat.add Format.binary64 u v.neg := by
  cases u with
  | finite sign m e pos =>
    cases v with
    | finite other n f more =>
      cases other with
      | positive =>
        simp only [UnpackedFloat.sub, UnpackedFloat.add, neg, Sign.apply, Int.sub_eq_add_neg]
      | negative =>
        simp only [UnpackedFloat.sub, UnpackedFloat.add, neg, Sign.apply, Int.sub_eq_add_neg,
          Int.neg_neg]
    | _ => rfl
  | _ => cases v <;> rfl

theorem isCanonical_neg (canonical : IsCanonical u) : IsCanonical u.neg := by
  cases u <;> exact canonical

theorem isFinite_neg (u : UnpackedFloat) : u.neg.isFinite = u.isFinite := by
  cases u <;> rfl

theorem value_neg (u : UnpackedFloat) : value u.neg = -value u := by
  cases u with
  | finite sign m e pos =>
    cases sign with
    | positive => exact value_negative
    | negative => rw [value_negative, neg_neg]; rfl
  | _ => exact neg_zero.symm

/-- A difference is rounded once. -/
theorem sub_yields (canonical : IsCanonical u) (too : IsCanonical v) (finite : u.isFinite = true)
    (also : v.isFinite = true) :
    Yields (UnpackedFloat.sub Format.binary64 u v) (nearest (value u - value v)) := by
  rw [sub_eq_add, sub_eq_add_neg, ← value_neg]
  exact add_yields canonical (isCanonical_neg too) finite ((isFinite_neg v).trans also)

/-! ## Equality -/

theorem value_ne_zero {sign : Sign} {m : Nat} (pos : 0 < m) (e : ℤ) :
    value (.finite sign m e pos) ≠ 0 := by
  rw [← abs_pos, abs_value_finite]
  exact magnitude_pos pos e

/-- Finite floats are equal where they stand for the same number; the two zeros are. -/
theorem compare_eq_iff (canonical : IsCanonical u) (too : IsCanonical v)
    (finite : u.isFinite = true) (also : v.isFinite = true) :
    u.compare v = some .eq ↔ value u = value v := by
  cases u with
  | notANumber | infinity => cases finite
  | zero =>
    cases v with
    | notANumber | infinity => cases also
    | zero => exact iff_of_true rfl rfl
    | finite sign n f more =>
      cases sign <;> exact iff_of_false nofun fun same => value_ne_zero more f same.symm
  | finite sign m e pos =>
    cases v with
    | notANumber | infinity => cases also
    | zero => cases sign <;> exact iff_of_false nofun (value_ne_zero pos e)
    | finite other n f more =>
      have one := magnitude_pos pos e
      have two := magnitude_pos more f
      have order := compare_magnitude canonical too
      cases sign with
      | positive =>
        cases other with
        | positive =>
          change some ((compare e f).then (compare m n)) = some .eq ↔ _
          rw [order, Option.some_inj, compare_eq_iff_eq, value_positive, value_positive]
        | negative =>
          refine iff_of_false nofun fun same => ?_
          rw [value_positive, value_negative] at same
          linarith
      | negative =>
        cases other with
        | positive =>
          refine iff_of_false nofun fun same => ?_
          rw [value_positive, value_negative] at same
          linarith
        | negative =>
          change some ((compare e f).then (compare m n)).swap = some .eq ↔ _
          rw [order, Option.some_inj, Ordering.swap_eq_eq, compare_eq_iff_eq, value_negative,
            value_negative, neg_inj]

/-! ## The smallest float -/

/-- The smallest positive float. -/
def smallest : ℚ := 2 ^ (-1074 : ℤ)

theorem smallest_pos : 0 < smallest := two_zpow_pos _

theorem quantumExp_of_lt {x : ℚ} (pos : 0 < x) (small : x < 2 * smallest) :
    quantumExp x = -1074 := by
  refine le_antisymm ((quantumExp_le_iff pos).mpr ⟨?_, le_refl _⟩) (le_max_right _ _)
  refine small.trans_le ?_
  rw [smallest, ← zpow_one_add₀ two_ne_zero]
  exact zpow_le_zpow_right₀ one_le_two (by norm_num)

theorem nearest_smallest : nearest smallest = smallest := by
  refine nearest_eq_self ⟨1, ?_⟩
  rw [quantumExp_of_lt smallest_pos (by linarith [smallest_pos]), Int.cast_one, one_mul]
  rfl

theorem nearest_pos_of_le {x : ℚ} (least : smallest ≤ x) : 0 < nearest x :=
  smallest_pos.trans_le (nearest_smallest ▸ nearest_mono least)

/-- What rounds to zero is what is at most half of the smallest float. -/
theorem nearest_eq_zero_iff {x : ℚ} (nonneg : 0 ≤ x) : nearest x = 0 ↔ x ≤ smallest / 2 := by
  have unit := smallest_pos
  rcases lt_or_ge x smallest with small | large
  · rcases nonneg.eq_or_lt with rfl | pos
    · exact iff_of_true nearest_zero (by linarith)
    · have floor : ⌊x / smallest⌋ = 0 :=
        Int.floor_eq_zero_iff.mpr ⟨div_nonneg pos.le unit.le, (div_lt_one unit).mpr small⟩
      have fract : Int.fract (x / smallest) = x / smallest := by
        rw [Int.fract, floor, Int.cast_zero, sub_zero]
      have half : x ≤ smallest / 2 ↔ ¬ 1 / 2 < x / smallest := by
        rw [not_lt, div_le_iff₀ unit]
        constructor <;> intro le <;> linarith
      rw [nearest, quantumExp_of_lt pos (by linarith)]
      change (roundEven (x / smallest) : ℚ) * smallest = 0 ↔ _
      rw [mul_eq_zero_iff_right unit.ne', Int.cast_eq_zero, half, roundEven, floor, fract]
      split_ifs with below above
      · exact iff_of_true rfl below.not_gt
      · exact iff_of_false one_ne_zero (not_not_intro above)
      · exact iff_of_true rfl above
  · exact iff_of_false (nearest_pos_of_le large).ne' (by linarith)

/-! ## Roots -/

/-- A mantissa with a remark on what is left out stands for some number. -/
theorem exists_locates (m : Nat) (accuracy : Accuracy) :
    ∃ q : ℚ, m ≤ q ∧ Locates (.ofMantissaAndAccuracy m accuracy) q := by
  cases accuracy with
  | exact => exact ⟨m, le_refl _, rfl⟩
  | inexact order =>
    cases order with
    | lt => exact ⟨m + 1 / 4, by linarith, show (m : ℚ) < _ ∧ _ by constructor <;> linarith⟩
    | eq => exact ⟨m + 1 / 2, by linarith, rfl⟩
    | gt => exact ⟨m + 3 / 4, by linarith, show (m + 1 / 2 : ℚ) < _ ∧ _ by constructor <;> linarith⟩

/-- A root is worked out to as many bits as rounding needs. -/
theorem sqrtCore_spec {m : Nat} (pos : 0 < m) {e : ℤ} (least : -1074 ≤ e) :
    1 ≤ (sqrtCore Format.binary64 m e).1 ∧ -1074 ≤ (sqrtCore Format.binary64 m e).2.1 ∧
      (2 ^ 52 ≤ (sqrtCore Format.binary64 m e).1 ∨
        (sqrtCore Format.binary64 m e).2.1 ≤ -1074) := by
  unfold sqrtCore
  set target := min (e.ediv 2) (Format.binary64.targetExponent ((totalExponent m e + 1).ediv 2))
    with chosen
  have reached := Nat.log2_self_le pos.ne'
  have wide (n k : Nat) (enough : 2 * k ≤ m.log2 + n) : 2 ^ k ≤ Nat.sqrt (m <<< n) := by
    rw [Nat.le_sqrt, Nat.shiftLeft_eq, ← pow_add, ← two_mul]
    calc 2 ^ (2 * k) ≤ 2 ^ (m.log2 + n) := Nat.pow_le_pow_right two_pos enough
      _ = 2 ^ m.log2 * 2 ^ n := pow_add ..
      _ ≤ m * 2 ^ n := Nat.mul_le_mul_right _ reached
  simp only [← Int.div_def, targetExponent_eq, totalExponent] at chosen
  refine ⟨wide _ 0 (Nat.zero_le _), ?_, ?_⟩
  · change -1074 ≤ target
    omega
  · by_cases low : target ≤ -1074
    · exact .inr low
    · refine .inl (wide _ 52 ?_)
      omega

/-- The root of a positive float is positive. -/
theorem sqrt_yields {m : Nat} {e : ℤ} (pos : 0 < m) (least : -1074 ≤ e) :
    ∃ q : ℚ, 0 < q ∧ Yields (UnpackedFloat.sqrt Format.binary64 (.finite .positive m e pos)) q := by
  obtain ⟨rootPos, floor, bits⟩ := sqrtCore_spec pos least
  obtain ⟨q, above, locates⟩ := exists_locates (sqrtCore Format.binary64 m e).1
    (sqrtCore Format.binary64 m e).2.2
  change ∃ q : ℚ, 0 < q ∧ Yields (roundWithAccuracy Format.binary64 .positive
    (sqrtCore Format.binary64 m e).1 (sqrtCore Format.binary64 m e).2.1
    (sqrtCore Format.binary64 m e).2.2) q
  generalize (sqrtCore Format.binary64 m e).1 = root at *
  generalize (sqrtCore Format.binary64 m e).2.1 = target at *
  generalize (sqrtCore Format.binary64 m e).2.2 = accuracy at *
  have unit := two_zpow_pos target
  have one : (1 : ℚ) ≤ q := le_trans (by exact_mod_cast rootPos) above
  have large : 0 < q * 2 ^ target := mul_pos (zero_lt_one.trans_le one) unit
  have fine : target ≤ quantumExp (q * 2 ^ target) := by
    refine (le_quantumExp_iff large).mpr ?_
    rcases bits with long | low
    · left
      rw [zpow_add₀ two_ne_zero, mul_comm]
      exact mul_le_mul_of_nonneg_right (le_trans (by exact_mod_cast long) above) unit.le
    · exact .inr low
  rw [← mul_div_cancel_right₀ q unit.ne'] at locates
  refine ⟨_, ?_, roundWithAccuracy_yields .positive locates large fine⟩
  have least : smallest ≤ q * 2 ^ target := by
    calc smallest ≤ 1 * 2 ^ target := by
          rw [one_mul]
          exact zpow_le_zpow_right₀ one_le_two floor
      _ ≤ q * 2 ^ target := mul_le_mul_of_nonneg_right one unit.le
  rw [Sign.apply, Int.cast_one, one_mul]
  exact nearest_pos_of_le least

end Unpacked

/-! ## Floats -/

section Floats

variable {x y : Float}

theorem isFinite_sub_iff (finite : x.isFinite = true) (also : y.isFinite = true) :
    (x - y).isFinite = true ↔ |nearest (number x - number y)| < 2 ^ 1024 :=
  (sub_yields (isCanonical x) (isCanonical y) finite also).isFinite_pack

theorem number_sub (finite : x.isFinite = true) (also : y.isFinite = true)
    (small : |nearest (number x - number y)| < 2 ^ 1024) :
    number (x - y) = nearest (number x - number y) :=
  (sub_yields (isCanonical x) (isCanonical y) finite also).value_pack small

/-- The floats that equal zero are those that stand for it. -/
theorem beq_zero_iff : (x == 0) = true ↔ x.isFinite = true ∧ number x = 0 := by
  change (x.toModel.unpack.compare (.zero .positive) == some .eq) = true ↔
    x.toModel.unpack.isFinite = true ∧ value x.toModel.unpack = 0
  generalize x.toModel.unpack = u
  cases u with
  | notANumber => exact iff_of_false nofun fun both => nomatch both.1
  | infinity sign => cases sign <;> exact iff_of_false nofun fun both => nomatch both.1
  | zero => exact iff_of_true rfl ⟨rfl, rfl⟩
  | finite sign m e pos =>
    cases sign <;> exact iff_of_false nofun fun both => value_ne_zero pos e both.2

theorem beq_iff_number_eq (finite : x.isFinite = true) (also : y.isFinite = true) :
    (x == y) = true ↔ number x = number y := by
  change (x.toModel.unpack.compare y.toModel.unpack == some .eq) = true ↔ _
  rw [beq_iff_eq]
  exact compare_eq_iff (isCanonical x) (isCanonical y) finite also

/-- A root is zero only where its radicand is. -/
theorem sqrt_beq_zero_iff : (x.sqrt == 0) = true ↔ (x == 0) = true := by
  have canonical := isCanonical x
  have packed : x.sqrt.toModel.unpack = unpack Format.binary64
    (pack Format.binary64 (UnpackedFloat.sqrt Format.binary64 x.toModel.unpack)) := rfl
  rw [beq_zero_iff, beq_zero_iff]
  change x.sqrt.toModel.unpack.isFinite = true ∧ value x.sqrt.toModel.unpack = 0 ↔
    x.toModel.unpack.isFinite = true ∧ value x.toModel.unpack = 0
  rw [packed]
  generalize x.toModel.unpack = u at canonical ⊢
  have lost (special : UnpackedFloat) (root : UnpackedFloat.sqrt Format.binary64 u = special)
      (infinite : special.isFinite = false) : ¬ ((unpack Format.binary64 (pack Format.binary64
        (UnpackedFloat.sqrt Format.binary64 u))).isFinite = true ∧ value (unpack Format.binary64
        (pack Format.binary64 (UnpackedFloat.sqrt Format.binary64 u))) = 0) := by
    rintro ⟨finite, -⟩
    rw [root] at finite
    rw [isFinite_of_pack finite] at infinite
    cases infinite
  cases u with
  | notANumber => exact iff_of_false (lost .notANumber rfl rfl) fun both => nomatch both.1
  | infinity sign =>
    cases sign with
    | positive => exact iff_of_false (lost (.infinity .positive) rfl rfl) fun both => nomatch both.1
    | negative => exact iff_of_false (lost .notANumber rfl rfl) fun both => nomatch both.1
  | zero sign =>
    rw [show UnpackedFloat.sqrt Format.binary64 (.zero sign) = .zero sign from rfl,
      unpack_pack (u := .zero sign) trivial trivial]
  | finite sign m e pos =>
    refine iff_of_false ?_ fun both => value_ne_zero pos e both.2
    cases sign with
    | negative => exact lost .notANumber rfl rfl
    | positive =>
      obtain ⟨q, nonzero, yields⟩ := sqrt_yields pos canonical.2.1
      rintro ⟨finite, vanishes⟩
      rw [yields.value_pack (yields.isFinite_pack.mp finite)] at vanishes
      exact nonzero.ne' vanishes

/-! ## Sums of squares -/

/-- Whether a float is not below zero, if it stands for a number at all. -/
def NotBelow (x : Float) : Prop := x.isFinite = true → 0 ≤ number x

theorem notBelow_add (first : NotBelow x) (second : NotBelow y) : NotBelow (x + y) := by
  intro finite
  obtain ⟨one, other⟩ := isFinite_of_add finite
  rw [number_add finite]
  exact nearest_nonneg (add_nonneg (first one) (second other))

theorem notBelow_mul_self (x : Float) : NotBelow (x * x) := by
  intro finite
  rw [number_mul finite]
  exact nearest_nonneg (mul_self_nonneg _)

/-- A sum of floats that are not below zero is zero only where both are. -/
theorem add_beq_zero_iff (first : NotBelow x) (second : NotBelow y) :
    (x + y == 0) = true ↔ (x == 0) = true ∧ (y == 0) = true := by
  rw [beq_zero_iff, beq_zero_iff, beq_zero_iff]
  constructor
  · rintro ⟨finite, vanishes⟩
    obtain ⟨one, other⟩ := isFinite_of_add finite
    rw [number_add finite] at vanishes
    have left : number x ≤ 0 := by
      rw [← vanishes, ← nearest_number x]
      exact nearest_mono (le_trans (by rw [nearest_number]) (le_add_of_nonneg_right (second other)))
    have right : number y ≤ 0 := by
      rw [← vanishes, ← nearest_number y]
      exact nearest_mono (le_trans (by rw [nearest_number]) (le_add_of_nonneg_left (first one)))
    exact ⟨⟨one, le_antisymm left (first one)⟩, other, le_antisymm right (second other)⟩
  · rintro ⟨⟨one, vanishes⟩, other, also⟩
    have finite : (x + y).isFinite = true := by
      rw [isFinite_add_iff one other, vanishes, also, add_zero, nearest_zero, abs_zero]
      positivity
    rw [number_add finite, vanishes, also, add_zero]
    exact ⟨finite, nearest_zero⟩

theorem foldl_add_beq_zero_iff {values : List Float} {sum : Float} (begins : NotBelow sum)
    (each : ∀ value ∈ values, NotBelow value) :
    (values.foldl (· + ·) sum == 0) = true ↔
      (sum == 0) = true ∧ ∀ value ∈ values, (value == 0) = true := by
  induction values generalizing sum with
  | nil => simp
  | cons value values ih =>
    obtain ⟨first, others⟩ := List.forall_mem_cons.mp each
    rw [List.foldl_cons, ih (notBelow_add begins first) others, add_beq_zero_iff begins first,
      List.forall_mem_cons, and_assoc]

/-- A square is zero if it is at most half of the smallest float. -/
theorem mul_self_beq_zero_iff :
    (x * x == 0) = true ↔ x.isFinite = true ∧ number x ^ 2 ≤ smallest / 2 := by
  have square := nearest_eq_zero_iff (sq_nonneg (number x))
  rw [beq_zero_iff, ← square, pow_two]
  constructor
  · rintro ⟨finite, vanishes⟩
    rw [number_mul finite] at vanishes
    exact ⟨(isFinite_of_mul finite).1, vanishes⟩
  · rintro ⟨finite, vanishes⟩
    have whole : (x * x).isFinite = true := by
      rw [isFinite_mul_iff finite finite, vanishes, abs_zero]
      positivity
    exact ⟨whole, (number_mul whole).trans vanishes⟩

/-- So small that its square is lost. -/
def Vanishes (d : ℚ) : Prop := d ^ 2 ≤ smallest / 2

theorem squared_difference_beq_zero_iff (finite : x.isFinite = true) (also : y.isFinite = true) :
    ((x - y) * (x - y) == 0) = true ↔ Vanishes (nearest (number x - number y)) := by
  rw [mul_self_beq_zero_iff]
  constructor
  · rintro ⟨whole, small⟩
    rwa [number_sub finite also ((isFinite_sub_iff finite also).mp whole)] at small
  · intro small
    have one : |nearest (number x - number y)| ≤ 1 := by
      refine sq_le_one_iff_abs_le_one _ |>.mp (small.trans ?_)
      have below : smallest ≤ 1 := zpow_le_one_of_nonpos₀ one_le_two (by norm_num)
      linarith
    have bounded : |nearest (number x - number y)| < 2 ^ 1024 :=
      one.trans_lt (one_lt_pow₀ one_lt_two (by decide))
    rw [number_sub finite also bounded]
    exact ⟨(isFinite_sub_iff finite also).mpr bounded, small⟩

end Floats

end MotionRace.Binary64

namespace MotionRace

open Binary64

/-- Two configurations are at distance zero if the square of each rounded difference is lost. -/
theorem distance_eq_zero_iff {a b : Configuration} (finite : ∀ x ∈ a, x.isFinite = true)
    (also : ∀ y ∈ b, y.isFinite = true) :
    (distance a b == 0) = true ↔
      ∀ pair ∈ a.zip b, Vanishes (nearest (number pair.1 - number pair.2)) := by
  have squares : ∀ value ∈ List.zipWith (fun x y => (x - y) * (x - y)) a b, NotBelow value := by
    intro value listed
    rw [← List.map_uncurry_zip_eq_zipWith] at listed
    obtain ⟨pair, -, rfl⟩ := List.mem_map.mp listed
    exact notBelow_mul_self _
  have begins : NotBelow (-0.0) := fun _ => le_refl _
  rw [distance, sqrt_beq_zero_iff, floatSum, foldl_add_beq_zero_iff begins squares,
    and_iff_right (by decide), ← List.map_uncurry_zip_eq_zipWith, List.forall_mem_map]
  refine forall₂_congr fun pair listed => ?_
  obtain ⟨left, right⟩ := List.of_mem_zip listed
  exact squared_difference_beq_zero_iff (finite _ left) (also _ right)

end MotionRace
