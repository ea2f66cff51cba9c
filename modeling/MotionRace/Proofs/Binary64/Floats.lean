import MotionRace.Proofs.Binary64.Operations

/-!
# Arithmetic on floats

What the operations of `Binary64` come to is packed into 64 bits. What is too large becomes an
infinity there, so a sum or a product is finite exactly when both of its parts are and the rounded
result is not too large, and then it stands for that result.
-/

namespace MotionRace.Binary64

open Float.Model (UnpackedFloat Format)
open Float.Model.UnpackedFloat

/-- The number that a float stands for; zero for what is no number. -/
def number (x : Float) : ℚ := value x.toModel.unpack

section Floats

variable {x y : Float}

theorem isCanonical (x : Float) : IsCanonical x.toModel.unpack := (canonical_unpack _).1

@[simp] theorem nearest_number (x : Float) : nearest (number x) = number x :=
  nearest_value (isCanonical x)

@[simp] theorem number_one : number 1 = 1 := by
  have unpacked : (1 : Float).toModel.unpack = .finite .positive (2 ^ 52) (-52) (by decide) := rfl
  rw [number, unpacked, value_positive]
  norm_num

theorem nearest_one : nearest 1 = 1 := number_one ▸ nearest_number 1

theorem abs_number_lt (x : Float) : |number x| < 2 ^ 1024 :=
  (fits_iff (isCanonical x)).mp (canonical_unpack _).2

theorem le_iff_number_le (finite : x.isFinite = true) (also : y.isFinite = true) :
    x ≤ y ↔ number x ≤ number y := by
  have order := le_iff_value_le (isCanonical x) (isCanonical y) finite also
  exact ⟨fun le => order.mp (of_decide_eq_true le), fun le => decide_eq_true (order.mpr le)⟩

/-! ## Packed results -/

theorem isFinite_of_pack {u : UnpackedFloat}
    (finite : (unpack Format.binary64 (pack Format.binary64 u)).isFinite = true) :
    u.isFinite = true := by
  cases u with
  | notANumber => exact absurd finite (by decide)
  | infinity sign => cases sign <;> exact absurd finite (by decide)
  | _ => rfl

/-- What comes to a number is packed as a finite float if the number is not too large. -/
theorem Yields.isFinite_pack {u : UnpackedFloat} {q : ℚ} (yields : Yields u q) :
    (unpack Format.binary64 (pack Format.binary64 u)).isFinite = true ↔ |q| < 2 ^ 1024 := by
  rw [isFinite_unpack_pack yields.canonical, and_iff_right yields.finite, fits_iff yields.canonical,
    yields.value_eq]

theorem Yields.value_pack {u : UnpackedFloat} {q : ℚ} (yields : Yields u q)
    (small : |q| < 2 ^ 1024) : value (unpack Format.binary64 (pack Format.binary64 u)) = q := by
  rw [unpack_pack yields.canonical, yields.value_eq]
  rwa [fits_iff yields.canonical, yields.value_eq]

/-! ## Sums -/

theorem isFinite_of_add (finite : (x + y).isFinite = true) :
    x.isFinite = true ∧ y.isFinite = true := by
  have parts : (add Format.binary64 x.toModel.unpack y.toModel.unpack).isFinite = true :=
    isFinite_of_pack finite
  change x.toModel.unpack.isFinite = true ∧ y.toModel.unpack.isFinite = true
  generalize x.toModel.unpack = u at parts ⊢
  generalize y.toModel.unpack = v at parts ⊢
  cases u with
  | notANumber => cases parts
  | infinity sign =>
    cases v with
    | infinity other => cases sign <;> cases other <;> cases parts
    | _ => cases parts
  | _ =>
    cases v with
    | notANumber | infinity => cases parts
    | _ => exact ⟨rfl, rfl⟩

theorem isFinite_add_iff (finite : x.isFinite = true) (also : y.isFinite = true) :
    (x + y).isFinite = true ↔ |nearest (number x + number y)| < 2 ^ 1024 :=
  (add_yields (isCanonical x) (isCanonical y) finite also).isFinite_pack

theorem number_add (finite : (x + y).isFinite = true) :
    number (x + y) = nearest (number x + number y) := by
  obtain ⟨first, second⟩ := isFinite_of_add finite
  exact (add_yields (isCanonical x) (isCanonical y) first second).value_pack
    ((isFinite_add_iff first second).mp finite)

/-! ## Products -/

theorem isFinite_of_mul (finite : (x * y).isFinite = true) :
    x.isFinite = true ∧ y.isFinite = true := by
  have parts : (mul Format.binary64 x.toModel.unpack y.toModel.unpack).isFinite = true :=
    isFinite_of_pack finite
  change x.toModel.unpack.isFinite = true ∧ y.toModel.unpack.isFinite = true
  generalize x.toModel.unpack = u at parts ⊢
  generalize y.toModel.unpack = v at parts ⊢
  cases u with
  | notANumber | infinity => cases v <;> cases parts
  | _ =>
    cases v with
    | notANumber | infinity => cases parts
    | _ => exact ⟨rfl, rfl⟩

theorem isFinite_mul_iff (finite : x.isFinite = true) (also : y.isFinite = true) :
    (x * y).isFinite = true ↔ |nearest (number x * number y)| < 2 ^ 1024 :=
  (mul_yields (isCanonical x) (isCanonical y) finite also).isFinite_pack

theorem number_mul (finite : (x * y).isFinite = true) :
    number (x * y) = nearest (number x * number y) := by
  obtain ⟨first, second⟩ := isFinite_of_mul finite
  exact (mul_yields (isCanonical x) (isCanonical y) first second).value_pack
    ((isFinite_mul_iff first second).mp finite)

/-! ## Quotients -/

theorem isFinite_div_iff (finite : x.isFinite = true) (also : y.isFinite = true)
    (nonzero : number y ≠ 0) :
    (x / y).isFinite = true ↔ |nearest (number x / number y)| < 2 ^ 1024 :=
  (div_yields (isCanonical x) (isCanonical y) finite also nonzero).isFinite_pack

theorem number_div (finite : x.isFinite = true) (also : y.isFinite = true)
    (nonzero : number y ≠ 0) (small : |nearest (number x / number y)| < 2 ^ 1024) :
    number (x / y) = nearest (number x / number y) :=
  (div_yields (isCanonical x) (isCanonical y) finite also nonzero).value_pack small

/-! ## Words -/

theorem abs_nearest_word_lt (word : UInt64) : |nearest word.toNat| < 2 ^ 1024 := by
  have nonneg : (0 : ℚ) ≤ word.toNat := Nat.cast_nonneg _
  have below : (word.toNat : ℚ) ≤ number (18446744073709551616 : Float) := by
    have largest : number (18446744073709551616 : Float) = 2 ^ 64 := by
      have unpacked : (18446744073709551616 : Float).toModel.unpack =
          .finite .positive (2 ^ 52) 12 (by decide) := rfl
      rw [number, unpacked, value_positive]
      norm_num
    rw [largest]
    exact_mod_cast word.toNat_lt.le
  rw [abs_of_nonneg (nearest_nonneg nonneg)]
  calc nearest word.toNat ≤ number (18446744073709551616 : Float) :=
        nearest_number (18446744073709551616 : Float) ▸ nearest_mono below
    _ ≤ |number (18446744073709551616 : Float)| := le_abs_self _
    _ < 2 ^ 1024 := abs_number_lt _

theorem isFinite_toFloat (word : UInt64) : word.toFloat.isFinite = true :=
  (ofNat_yields word.toNat).isFinite_pack.mpr (abs_nearest_word_lt word)

/-- A word is rounded once. -/
theorem number_toFloat (word : UInt64) : number word.toFloat = nearest word.toNat :=
  (ofNat_yields word.toNat).value_pack (abs_nearest_word_lt word)

end Floats

end MotionRace.Binary64
