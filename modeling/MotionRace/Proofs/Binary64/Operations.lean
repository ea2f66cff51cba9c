import MotionRace.Proofs.Binary64.Values

/-!
# Operations round once

An operation on floats works out a mantissa and an exponent, with two bits for what is left out, and
drops bits of the mantissa until it has the length that belongs to its size. What is left out is
never forgotten (`Locates`), so the result is the float that is nearest to the exact result.

Main statements: `add_yields`, `mul_yields` and `div_yields`.
-/

namespace MotionRace.Binary64

open Float.Model (UnpackedFloat Format totalExponent)
open Float.Model.UnpackedFloat

/-! ## Mantissas with two more bits -/

/-- Whether a mantissa with its two residual bits stands for a number: the bits tell where in the
interval above the mantissa the number lies. -/
def Locates : ExtendedMantissa → ℚ → Prop
  | ⟨m, false, false⟩, x => x = m
  | ⟨m, false, true⟩, x => m < x ∧ x < m + 1 / 2
  | ⟨m, true, false⟩, x => x = m + 1 / 2
  | ⟨m, true, true⟩, x => m + 1 / 2 < x ∧ x < m + 1

namespace Locates

variable {em : ExtendedMantissa} {x : ℚ}

theorem le (locates : Locates em x) : (em.mantissa : ℚ) ≤ x := by
  obtain ⟨m, round, sticky⟩ := em
  cases round <;> cases sticky <;> simp only [Locates] at locates ⊢ <;> linarith

theorem lt (locates : Locates em x) : x < em.mantissa + 1 := by
  obtain ⟨m, round, sticky⟩ := em
  cases round <;> cases sticky <;> simp only [Locates] at locates ⊢ <;> linarith

/-- The bits are enough to round. -/
theorem roundedMantissa (locates : Locates em x) : (em.roundedMantissa : ℤ) = roundEven x := by
  have floor : ⌊x⌋ = em.mantissa := Int.floor_eq_iff.mpr ⟨locates.le, locates.lt⟩
  have fract : Int.fract x = x - em.mantissa := by rw [Int.fract, floor, Int.cast_natCast]
  rw [roundEven, floor, fract]
  obtain ⟨m, round, sticky⟩ := em
  cases round <;> cases sticky <;>
    simp only [Locates, ExtendedMantissa.roundedMantissa, ExtendedMantissa.accuracy,
      Accuracy.roundToNearestEven] at locates ⊢
  · rw [if_pos (by linarith)]
  · rw [if_pos (by linarith)]
  · rw [if_neg (by linarith), if_neg (by linarith)]
    push_cast
    rfl
  · rw [if_neg (by linarith), if_pos (by linarith)]
    push_cast
    rfl

/-- A bit that is dropped is kept in the residual bits. -/
theorem shiftRightOne (locates : Locates em x) : Locates em.shiftRightOne (x / 2) := by
  obtain ⟨m, round, sticky⟩ := em
  have parts : (m : ℚ) = 2 * (m / 2 : Nat) + (m % 2 : Nat) := by
    exact_mod_cast (Nat.div_add_mod m 2).symm
  rcases Nat.mod_two_eq_zero_or_one m with even | odd
  · rw [even, Nat.cast_zero] at parts
    cases round <;> cases sticky <;>
      simp only [Locates, ExtendedMantissa.shiftRightOne, even] at locates ⊢
    · change x / 2 = (m / 2 : Nat)
      linarith
    all_goals
      change ((m / 2 : Nat) : ℚ) < x / 2 ∧ x / 2 < (m / 2 : Nat) + 1 / 2
      constructor <;> linarith
  · rw [odd, Nat.cast_one] at parts
    cases round <;> cases sticky <;>
      simp only [Locates, ExtendedMantissa.shiftRightOne, odd] at locates ⊢
    · change x / 2 = (m / 2 : Nat) + 1 / 2
      linarith
    all_goals
      change ((m / 2 : Nat) : ℚ) + 1 / 2 < x / 2 ∧ x / 2 < (m / 2 : Nat) + 1
      constructor <;> linarith

theorem shiftRight (locates : Locates em x) (n : Nat) : Locates (em >>> n) (x / 2 ^ n) := by
  change Locates (n.repeat ExtendedMantissa.shiftRightOne em) (x / 2 ^ n)
  induction n with
  | zero =>
    rw [pow_zero, div_one]
    exact locates
  | succ n ih =>
    rw [pow_succ, ← div_div]
    exact ih.shiftRightOne

end Locates

/-- A fraction of a mantissa's last place is told by the residual bits. -/
theorem locates_accuracyOfFraction (m : Nat) {num den : Nat} (proper : num < den) :
    Locates (.ofMantissaAndAccuracy m (accuracyOfFraction num den)) (m + num / den) := by
  have large : (0 : ℚ) < den := by exact_mod_cast Nat.zero_lt_of_lt proper
  have below : (num : ℚ) / den < 1 := (div_lt_one large).mpr (by exact_mod_cast proper)
  unfold accuracyOfFraction
  split
  next zero =>
    rw [zero, Nat.cast_zero, zero_div, add_zero]
    rfl
  next nonzero =>
    have above : (0 : ℚ) < num / den :=
      div_pos (by exact_mod_cast Nat.pos_of_ne_zero nonzero) large
    have half : (2 * num : ℚ) / den = 2 * (num / den) := mul_div_assoc ..
    rcases lt_trichotomy (2 * num) den with lt | same | gt
    · have less : (2 * num : ℚ) / den < 1 := (div_lt_one large).mpr (by exact_mod_cast lt)
      rw [compare_lt_iff_lt.mpr lt]
      exact ⟨by linarith, by linarith⟩
    · have one : (2 * num : ℚ) / den = 1 :=
        (div_eq_one_iff_eq large.ne').mpr (by exact_mod_cast same)
      rw [compare_eq_iff_eq.mpr same]
      change (m + num / den : ℚ) = m + 1 / 2
      linarith
    · have more : 1 < (2 * num : ℚ) / den := (one_lt_div large).mpr (by exact_mod_cast gt)
      rw [compare_gt_iff_gt.mpr gt]
      exact ⟨by linarith, by linarith⟩

/-! ## Dropping bits -/

section Round

variable {em : ExtendedMantissa} {m : Nat} {e target : ℤ} {accuracy : Accuracy} {q : ℚ}

theorem targetExponent_eq (total : ℤ) :
    Format.binary64.targetExponent total = max (total - 53) (-1074) := rfl

/-- Bits that are dropped up to a larger exponent leave a mantissa for the same number. -/
theorem shiftToExponent_locates
    (locates : Locates (.ofMantissaAndAccuracy m accuracy) (q / 2 ^ e)) (larger : e ≤ target) :
    Locates (shiftToExponent m e accuracy target).1 (q / 2 ^ target) ∧
      (shiftToExponent m e accuracy target).2 = target := by
  have shift : e + ((target - e).toNat : ℤ) = target := by omega
  refine ⟨?_, shift⟩
  have scaled : q / 2 ^ target = q / 2 ^ e / 2 ^ (target - e).toNat := by
    rw [div_div, ← zpow_natCast, ← zpow_add₀ two_ne_zero, shift]
  rw [scaled]
  exact locates.shiftRight _

theorem mantissa_ofMantissaAndAccuracy (m : Nat) (accuracy : Accuracy) :
    (ExtendedMantissa.ofMantissaAndAccuracy m accuracy).mantissa = m := by
  cases accuracy with
  | exact => rfl
  | inexact order => cases order <;> rfl

/-- The target exponent of a mantissa is the one that belongs to its number. -/
theorem targetExponent_eq_quantumExp
    (locates : Locates (.ofMantissaAndAccuracy m accuracy) (q / 2 ^ e)) (pos : 0 < q)
    (fine : m = 0 → e ≤ quantumExp q) :
    Format.binary64.targetExponent (totalExponent m e) = quantumExp q := by
  have unit := two_zpow_pos e
  have above := locates.le
  have below := locates.lt
  rw [mantissa_ofMantissaAndAccuracy] at above below
  rw [le_div_iff₀ unit] at above
  rw [div_lt_iff₀ unit] at below
  rw [targetExponent_eq, totalExponent]
  apply le_antisymm
  · refine max_le ?_ (le_max_right _ _)
    rcases Nat.eq_zero_or_pos m with rfl | positive
    · have finer := fine rfl
      rw [Nat.log2_zero]
      omega
    · have reached : (2 : ℚ) ^ m.log2 ≤ m := by exact_mod_cast Nat.log2_self_le positive.ne'
      refine (le_quantumExp_iff pos).mpr (.inl ?_)
      have exponent : (m.log2 : ℤ) + 1 + e - 53 + 52 = m.log2 + e := by ring
      rw [exponent, zpow_add₀ two_ne_zero, zpow_natCast]
      exact (mul_le_mul_of_nonneg_right reached unit.le).trans above
  · refine (quantumExp_le_iff pos).mpr ⟨?_, le_max_right _ _⟩
    have bound : (m + 1 : ℚ) ≤ 2 ^ (m.log2 + 1) := by exact_mod_cast Nat.lt_log2_self
    calc q < (m + 1) * 2 ^ e := below
      _ ≤ 2 ^ (m.log2 + 1) * 2 ^ e := mul_le_mul_of_nonneg_right bound unit.le
      _ = 2 ^ ((m.log2 : ℤ) + 1 + e) := by
        rw [← zpow_natCast, ← zpow_add₀ two_ne_zero]
        push_cast
        rfl
      _ ≤ 2 ^ (max ((m.log2 : ℤ) + 1 + e - 53) (-1074) + 53) :=
        zpow_le_zpow_right₀ one_le_two (by omega)

/-- A mantissa that rounding has made too long by one bit loses that bit, which is zero. -/
theorem shiftToTargetExponent_rounded (small : m ≤ 2 ^ 53) (least : -1074 ≤ e) :
    ((shiftToTargetExponent Format.binary64 m e .exact).1.mantissa,
      (shiftToTargetExponent Format.binary64 m e .exact).2) =
      if m = 2 ^ 53 then (2 ^ 52, e + 1) else (m, e) := by
  split
  next full =>
    subst full
    have target : Format.binary64.targetExponent (totalExponent (2 ^ 53) e) = e + 1 := by
      rw [targetExponent_eq, totalExponent, Nat.log2_two_pow]
      omega
    have one : (e + 1 - e).toNat = 1 := by omega
    simp only [shiftToTargetExponent, target, shiftToExponent, one]
    rfl
  next short =>
    have log : m.log2 < 53 := by
      rcases Nat.eq_zero_or_pos m with rfl | positive
      · decide
      · exact (Nat.log2_lt positive.ne').mpr (by omega)
    have unshifted : (Format.binary64.targetExponent (totalExponent m e) - e).toNat = 0 := by
      rw [targetExponent_eq, totalExponent]
      omega
    simp only [shiftToTargetExponent, shiftToExponent, unshifted, Nat.cast_zero, add_zero]
    rfl

theorem apply_eq (sign : Sign) (n : ℤ) : sign.apply n = sign.apply 1 * n := by
  cases sign with
  | positive => exact (one_mul n).symm
  | negative => exact (neg_one_mul n).symm

/-- What an operation comes to: a float in canonical form that stands for a number. -/
structure Yields (u : UnpackedFloat) (x : ℚ) : Prop where
  canonical : IsCanonical u
  finite : u.isFinite = true
  value_eq : value u = x

/-- A mantissa of at most 53 bits and the carry of one is a float as it stands. -/
theorem yields_rounded (sign : Sign) (small : m ≤ 2 ^ 53) (least : -1074 ≤ e)
    (normal : 2 ^ 52 ≤ m ∨ e = -1074) {n : Nat} {f : ℤ}
    (shifted : (n, f) = if m = 2 ^ 53 then (2 ^ 52, e + 1) else (m, e)) :
    Yields (if h : n = 0 then .zero sign else .finite sign n f (Nat.pos_of_ne_zero h))
      ((sign.apply 1 : ℤ) * (m * 2 ^ e)) := by
  have same : (n * 2 ^ f : ℚ) = m * 2 ^ e := by
    split at shifted
    next full =>
      obtain ⟨rfl, rfl⟩ := Prod.mk.inj shifted
      rw [full, zpow_add_one₀ two_ne_zero]
      push_cast
      ring
    next =>
      obtain ⟨rfl, rfl⟩ := Prod.mk.inj shifted
      rfl
  split
  next zero =>
    refine ⟨trivial, rfl, ?_⟩
    rw [← same, zero, Nat.cast_zero, zero_mul, mul_zero]
    rfl
  next nonzero =>
    refine ⟨?_, rfl, ?_⟩
    · split at shifted
      next =>
        obtain ⟨rfl, rfl⟩ := Prod.mk.inj shifted
        exact ⟨by decide, by omega, .inl (le_refl _)⟩
      next short =>
        obtain ⟨rfl, rfl⟩ := Prod.mk.inj shifted
        exact ⟨by omega, least, normal⟩
    · rw [← same, value, apply_eq]
      push_cast
      ring

/-- Dropping bits rounds to the nearest float. -/
theorem roundWithAccuracy_yields (sign : Sign)
    (locates : Locates (.ofMantissaAndAccuracy m accuracy) (q / 2 ^ e)) (pos : 0 < q)
    (fine : e ≤ quantumExp q) :
    Yields (roundWithAccuracy Format.binary64 sign m e accuracy)
      ((sign.apply 1 : ℤ) * nearest q) := by
  have unit := two_zpow_pos (quantumExp q)
  have target := targetExponent_eq_quantumExp locates pos fun _ => fine
  have shifted := shiftToExponent_locates locates fine
  rw [← target] at shifted
  change Locates (shiftToTargetExponent Format.binary64 m e accuracy).1 _ ∧
    (shiftToTargetExponent Format.binary64 m e accuracy).2 = _ at shifted
  rw [target] at shifted
  unfold roundWithAccuracy
  generalize shiftToTargetExponent Format.binary64 m e accuracy = first at shifted
  obtain ⟨located, exponent⟩ := shifted
  have rounded : (first.1.roundedMantissa : ℤ) = roundEven (q / 2 ^ quantumExp q) :=
    located.roundedMantissa
  have small : (first.1.roundedMantissa : ℤ) ≤ 2 ^ 53 := by
    have above := ((quantumExp_le_iff pos).mp (le_refl _)).1
    rw [zpow_add₀ two_ne_zero, mul_comm, ← div_lt_iff₀ unit] at above
    have bound := roundEven_mono (y := (2 ^ 53 : ℤ)) (by exact_mod_cast above.le)
    rwa [roundEven_intCast, ← rounded] at bound
  have normal : 2 ^ 52 ≤ (first.1.roundedMantissa : ℤ) ∨ quantumExp q = -1074 := by
    rcases (le_quantumExp_iff pos).mp (le_refl _) with below | least
    · left
      rw [zpow_add₀ two_ne_zero, mul_comm, ← le_div_iff₀ unit] at below
      have bound := roundEven_mono (x := (2 ^ 52 : ℤ)) (by exact_mod_cast below)
      rwa [roundEven_intCast, ← rounded] at bound
    · exact .inr (le_antisymm least (le_max_right _ _))
  have result : nearest q = first.1.roundedMantissa * 2 ^ first.2 := by
    rw [nearest, ← rounded, exponent, Int.cast_natCast]
  rw [result]
  rw [← exponent] at normal
  exact yields_rounded sign (by exact_mod_cast small) (exponent ▸ le_max_right _ _)
    (by exact_mod_cast normal)
    (shiftToTargetExponent_rounded (by exact_mod_cast small) (exponent ▸ le_max_right _ _))

/-- An exponent that is made smaller leaves the number as it is. -/
theorem decreaseExponent_value (m : Nat) (e target : ℤ) :
    ((decreaseExponent m e target).1 * 2 ^ (decreaseExponent m e target).2 : ℚ) = m * 2 ^ e := by
  have split : e = (e - target).toNat + (e - ((e - target).toNat : ℤ)) := by omega
  conv_rhs => rw [split, zpow_add₀ two_ne_zero, zpow_natCast]
  rw [decreaseExponent, Nat.shiftLeft_eq]
  push_cast
  ring

theorem decreaseExponent_of_le {target : ℤ} (le : target ≤ e) (m : Nat) :
    ((decreaseExponent m e target).1 * 2 ^ target : ℚ) = m * 2 ^ e := by
  have exponent : (decreaseExponent m e target).2 = target := by
    rw [decreaseExponent]
    omega
  rw [← decreaseExponent_value m e target, exponent]

theorem round_yields (sign : Sign) (mantissaPos : 0 < m) (e : ℤ) :
    Yields (UnpackedFloat.round Format.binary64 sign m e)
      ((sign.apply 1 : ℤ) * nearest (m * 2 ^ e)) := by
  have pos := magnitude_pos mantissaPos e
  have whole {n : Nat} {f : ℤ} (same : (n * 2 ^ f : ℚ) = m * 2 ^ e) :
      Locates (.ofMantissaAndAccuracy n .exact) (m * 2 ^ e / 2 ^ f) := by
    rw [← same]
    exact mul_div_cancel_right₀ _ (two_zpow_pos f).ne'
  have target := targetExponent_eq_quantumExp (whole rfl) pos
    fun zero => absurd zero mantissaPos.ne'
  have same := decreaseExponent_value m e (quantumExp (m * 2 ^ e))
  have fine : (decreaseExponent m e (quantumExp (m * 2 ^ e))).2 ≤ quantumExp (m * 2 ^ e) := by
    rw [decreaseExponent]
    omega
  unfold UnpackedFloat.round
  rw [target]
  exact roundWithAccuracy_yields sign (whole same) pos fine

theorem nearest_apply (sign : Sign) (x : ℚ) :
    nearest ((sign.apply 1 : ℤ) * x) = (sign.apply 1 : ℤ) * nearest x := by
  cases sign with
  | positive => simp only [Sign.apply, Int.cast_one, one_mul]
  | negative => simp only [Sign.apply, Int.cast_neg, Int.cast_one, neg_one_mul, nearest_neg]

theorem normalize_yields (mantissa e : ℤ) (zeroSign : Sign) :
    Yields (UnpackedFloat.normalize Format.binary64 mantissa e zeroSign)
      (nearest (mantissa * 2 ^ e)) := by
  -- Either way the sign is taken off, and given back after rounding.
  have signed (sign : Sign) {n : Nat} (positive : 0 < n) (same : sign.apply 1 * n = mantissa) :
      Yields (UnpackedFloat.round Format.binary64 sign n e) (nearest (mantissa * 2 ^ e)) := by
    have parts : (mantissa * 2 ^ e : ℚ) = (sign.apply 1 : ℤ) * (n * 2 ^ e) := by
      rw [← same]
      push_cast
      ring
    rw [parts, nearest_apply]
    exact round_yields sign positive e
  unfold UnpackedFloat.normalize
  rcases lt_trichotomy mantissa 0 with neg | rfl | pos
  · rw [compare_lt_iff_lt.mpr neg]
    exact signed .negative (by omega) (show -1 * ((-mantissa).toNat : ℤ) = mantissa by omega)
  · rw [compare_eq_iff_eq.mpr rfl, Int.cast_zero, zero_mul, nearest_zero]
    exact ⟨trivial, rfl, rfl⟩
  · rw [compare_gt_iff_gt.mpr pos]
    exact signed .positive (by omega) (show 1 * (mantissa.toNat : ℤ) = mantissa by omega)

end Round

/-! ## The operations -/

section Operations

variable {u v : UnpackedFloat}

theorem value_eq_apply {sign : Sign} {m : Nat} {e : ℤ} {pos : 0 < m} :
    value (.finite sign m e pos) = (sign.apply 1 : ℤ) * (m * 2 ^ e) := by
  rw [value, apply_eq]
  push_cast
  ring

theorem yields_zero (sign : Sign) : Yields (.zero sign) 0 := ⟨trivial, rfl, rfl⟩

/-- A float that is handed on is the nearest to its number. -/
theorem yields_self (canonical : IsCanonical u) (finite : u.isFinite = true) {x : ℚ}
    (same : x = value u) : Yields u (nearest x) :=
  ⟨canonical, finite, by rw [same, nearest_value canonical]⟩

theorem apply_mul (sign other : Sign) : (sign * other).apply 1 = sign.apply 1 * other.apply 1 := by
  cases sign <;> cases other <;> rfl

theorem apply_div (sign other : Sign) : (sign / other).apply 1 = sign.apply 1 * other.apply 1 := by
  cases sign <;> cases other <;> rfl

/-- A sum is rounded once. -/
theorem add_yields (canonical : IsCanonical u) (too : IsCanonical v) (finite : u.isFinite = true)
    (also : v.isFinite = true) :
    Yields (UnpackedFloat.add Format.binary64 u v) (nearest (value u + value v)) := by
  cases u with
  | notANumber | infinity => cases finite
  | zero sign =>
    cases v with
    | notANumber | infinity => cases also
    | zero other =>
      have vanishes : value (.zero sign) + value (.zero other) = 0 := add_zero 0
      rw [vanishes, nearest_zero]
      change Yields (if sign == other then .zero sign else .zero .positive) 0
      split <;> exact yields_zero _
    | finite => exact yields_self too rfl (zero_add _)
  | finite sign m e pos =>
    cases v with
    | notANumber | infinity => cases also
    | zero => exact yields_self canonical rfl (add_zero _)
    | finite other n f more =>
      have first := decreaseExponent_of_le (min_le_left e f) m
      have second := decreaseExponent_of_le (min_le_right e f) n
      change Yields (UnpackedFloat.normalize Format.binary64
        (sign.apply (decreaseExponent m e (min e f)).1 +
          other.apply (decreaseExponent n f (min e f)).1) (min e f) .positive) _
      rw [value_eq_apply, value_eq_apply, ← first, ← second, apply_eq sign, apply_eq other]
      convert normalize_yields _ _ _ using 2
      push_cast
      ring

/-- A product is rounded once. -/
theorem mul_yields (canonical : IsCanonical u) (too : IsCanonical v) (finite : u.isFinite = true)
    (also : v.isFinite = true) :
    Yields (UnpackedFloat.mul Format.binary64 u v) (nearest (value u * value v)) := by
  cases u with
  | notANumber | infinity => cases finite
  | zero sign =>
    have vanishes : value (.zero sign) * value v = 0 := zero_mul _
    rw [vanishes, nearest_zero]
    cases v with
    | notANumber | infinity => cases also
    | zero | finite => exact yields_zero _
  | finite sign m e pos =>
    cases v with
    | notANumber | infinity => cases also
    | zero other =>
      have vanishes : value (.finite sign m e pos) * value (.zero other) = 0 := mul_zero _
      rw [vanishes, nearest_zero]
      exact yields_zero _
    | finite other n f more =>
      have unit := two_zpow_pos (e + f)
      have large : (0 : ℚ) < (m * n : Nat) * 2 ^ (e + f) := magnitude_pos (Nat.mul_pos pos more) _
      have split : value (.finite sign m e pos) * value (.finite other n f more) =
          ((sign * other).apply 1 : ℤ) * ((m * n : Nat) * 2 ^ (e + f)) := by
        rw [value_eq_apply, value_eq_apply, apply_mul, zpow_add₀ two_ne_zero]
        push_cast
        ring
      rw [split, nearest_apply]
      refine roundWithAccuracy_yields (sign * other) ?_ large ?_
      · exact mul_div_cancel_right₀ _ unit.ne'
      · refine (le_quantumExp_iff large).mpr ?_
        by_cases long : 2 ^ 52 ≤ m * n
        · left
          rw [zpow_add₀ two_ne_zero, mul_comm]
          exact mul_le_mul_of_nonneg_right (by exact_mod_cast long) unit.le
        · -- Neither mantissa is long, so both exponents are the smallest.
          have first := canonical.2.2.resolve_left fun whole =>
            long (whole.trans (Nat.le_mul_of_pos_right m more))
          have second := too.2.2.resolve_left fun whole =>
            long (whole.trans (Nat.le_mul_of_pos_left n pos))
          exact .inr (by omega)

/-- A quotient is worked out with its remainder, and to as many bits as rounding needs. -/
theorem divCore_locates {m n : Nat} (pos : 0 < m) (more : 0 < n) (e f : ℤ) :
    Locates (.ofMantissaAndAccuracy (divCore Format.binary64 m e n f).1
        (divCore Format.binary64 m e n f).2.2)
      (m * 2 ^ e / (n * 2 ^ f) / 2 ^ (divCore Format.binary64 m e n f).2.1) ∧
    (divCore Format.binary64 m e n f).2.1 ≤ quantumExp (m * 2 ^ e / (n * 2 ^ f)) := by
  have quotient : (0 : ℚ) < m * 2 ^ e / (n * 2 ^ f) :=
    div_pos (magnitude_pos pos e) (magnitude_pos more f)
  have divisor : (n : ℚ) ≠ 0 := by exact_mod_cast more.ne'
  unfold divCore
  set target := min (e - f)
    (Format.binary64.targetExponent (totalExponent m e - totalExponent n f)) with least
  constructor
  · have scaled : (m * 2 ^ e / (n * 2 ^ f) / 2 ^ target : ℚ) =
        (m * 2 ^ (e - f - target).toNat : Nat) / n := by
      have shift : ((e - f - target).toNat : ℤ) = e - f - target := by omega
      push_cast
      rw [← zpow_natCast, shift, zpow_sub₀ two_ne_zero, zpow_sub₀ two_ne_zero]
      field_simp
    have parts (a : Nat) : (a / n : ℚ) = (a / n : Nat) + (a % n : Nat) / n := by
      have whole : (a : ℚ) = n * (a / n : Nat) + (a % n : Nat) := by
        exact_mod_cast (Nat.div_add_mod a n).symm
      rw [eq_comm, ← mul_left_inj' divisor, add_mul, div_mul_cancel₀ _ divisor,
        div_mul_cancel₀ _ divisor, whole]
      ring
    rw [scaled, parts, ← Nat.shiftLeft_eq]
    exact locates_accuracyOfFraction _ (Nat.mod_lt _ more)
  · have reached :
        (m.log2 : ℤ) + e - (n.log2 + f) - 53 ≤ quantumExp (m * 2 ^ e / (n * 2 ^ f)) := by
      have above : (2 ^ m.log2 : ℚ) ≤ m := by exact_mod_cast Nat.log2_self_le pos.ne'
      have below : (n : ℚ) ≤ 2 ^ (n.log2 + 1) := by exact_mod_cast Nat.lt_log2_self.le
      refine (le_quantumExp_iff quotient).mpr (.inl ((le_div_iff₀ (magnitude_pos more f)).mpr ?_))
      calc (2 ^ ((m.log2 : ℤ) + e - (n.log2 + f) - 53 + 52) * (n * 2 ^ f) : ℚ)
          ≤ 2 ^ ((m.log2 : ℤ) + e - (n.log2 + f) - 53 + 52) * (2 ^ (n.log2 + 1) * 2 ^ f) :=
            mul_le_mul_of_nonneg_left (mul_le_mul_of_nonneg_right below (two_zpow_pos f).le)
              (two_zpow_pos _).le
        _ = 2 ^ m.log2 * 2 ^ e := by
            rw [← zpow_natCast 2 (n.log2 + 1), ← zpow_natCast 2 m.log2, ← zpow_add₀ two_ne_zero,
              ← zpow_add₀ two_ne_zero, ← zpow_add₀ two_ne_zero]
            push_cast
            ring_nf
        _ ≤ m * 2 ^ e := mul_le_mul_of_nonneg_right above (two_zpow_pos e).le
    have floor : -1074 ≤ quantumExp (m * 2 ^ e / (n * 2 ^ f)) := le_max_right _ _
    rw [targetExponent_eq, totalExponent, totalExponent] at least
    change target ≤ _
    omega

/-- A quotient is rounded once. -/
theorem div_yields (canonical : IsCanonical u) (too : IsCanonical v) (finite : u.isFinite = true)
    (also : v.isFinite = true) (nonzero : value v ≠ 0) :
    Yields (UnpackedFloat.div Format.binary64 u v) (nearest (value u / value v)) := by
  cases v with
  | notANumber | infinity => cases also
  | zero => exact absurd rfl nonzero
  | finite other n f more =>
    cases u with
    | notANumber | infinity => cases finite
    | zero sign =>
      have vanishes : value (.zero sign) / value (.finite other n f more) = 0 := zero_div _
      rw [vanishes, nearest_zero]
      exact yields_zero _
    | finite sign m e pos =>
      obtain ⟨locates, fine⟩ := divCore_locates pos more e f
      have split : value (.finite sign m e pos) / value (.finite other n f more) =
          ((sign / other).apply 1 : ℤ) * (m * 2 ^ e / (n * 2 ^ f)) := by
        rw [value_eq_apply, value_eq_apply, apply_div, mul_div_mul_comm, Int.cast_mul]
        congr 1
        cases other with
        | positive => exact (div_one _).trans (mul_one _).symm
        | negative =>
          simp only [Sign.apply, Int.cast_neg, Int.cast_one, div_neg, div_one, mul_neg, mul_one]
      rw [split, nearest_apply]
      exact roundWithAccuracy_yields (sign / other) locates
        (div_pos (magnitude_pos pos e) (magnitude_pos more f)) fine

/-- A whole number is rounded once. -/
theorem ofNat_yields (n : Nat) : Yields (UnpackedFloat.ofNat Format.binary64 n) (nearest n) := by
  have result := normalize_yields n 0 .positive
  rwa [Int.cast_natCast, zpow_zero, mul_one] at result

end Operations

end MotionRace.Binary64
