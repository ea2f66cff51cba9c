import MotionRace.Proofs.Binary64.Distances

/-!
# Floats that are no numbers

Beyond the largest float lie the infinities. A difference or a quotient of infinities, and the
product of one with zero, is not a number at all; it stays that through every operation, and no
comparison with it holds. So a computation that runs over may still be settled by a comparison, as
long as it only ever meets infinities, and is lost where two of them meet.
-/

namespace MotionRace.Binary64

open Float.Model (UnpackedFloat Format)
open Float.Model.UnpackedFloat

section Unpacked

variable {u v : UnpackedFloat} {q : ℚ}

theorem eq_notANumber (nan : u.isNaN = true) : u = .notANumber := by
  cases u with
  | notANumber => rfl
  | _ => cases nan

/-- What is no number is packed as such. -/
theorem isNaN_pack (nan : u = .notANumber) :
    (unpack Format.binary64 (pack Format.binary64 u)).isNaN = true := by
  rw [nan]
  exact congrArg UnpackedFloat.isNaN (unpack_pack (u := .notANumber) trivial trivial)

/-- What comes to a number is packed as that number, or as an infinity of its sign. -/
theorem Yields.pack_cases (yields : Yields u q) :
    unpack Format.binary64 (pack Format.binary64 u) = u ∨
      ∃ sign m e pos, u = .finite sign m e pos ∧
        unpack Format.binary64 (pack Format.binary64 u) = .infinity sign := by
  by_cases fits : Fits u
  · exact .inl (unpack_pack yields.canonical fits)
  · cases u with
    | finite sign m e pos => exact .inr ⟨sign, m, e, pos, rfl, unpack_pack_of_large fits⟩
    | _ => exact absurd trivial fits

theorem Yields.isNaN_pack (yields : Yields u q) :
    (unpack Format.binary64 (pack Format.binary64 u)).isNaN = false := by
  rcases yields.pack_cases with same | ⟨sign, -, -, -, -, large⟩
  · rw [same]
    have finite := yields.finite
    cases u with
    | notANumber | infinity => cases finite
    | _ => rfl
  · rw [large]
    rfl

/-- A number that is not below zero is packed as something that is not. -/
theorem Yields.zero_le_pack (yields : Yields u q) (nonneg : 0 ≤ q) :
    (UnpackedFloat.zero .positive).le (unpack Format.binary64 (pack Format.binary64 u)) = true := by
  have order := le_iff_value_le (u := .zero .positive) trivial yields.canonical rfl yields.finite
  have above : (UnpackedFloat.zero .positive).le u = true :=
    order.mpr (nonneg.trans_eq yields.value_eq.symm)
  rcases yields.pack_cases with same | ⟨sign, m, e, pos, rfl, large⟩
  · rw [same]
    exact above
  · rw [large]
    cases sign with
    | positive => rfl
    | negative => cases above

/-- What is not below zero is the positive infinity, or a number that is not. -/
theorem zero_le_cases (canonical : IsCanonical u)
    (above : (UnpackedFloat.zero .positive).le u = true) :
    u = .infinity .positive ∨ u.isFinite = true ∧ 0 ≤ value u := by
  have order (finite : u.isFinite = true) :=
    le_iff_value_le (u := .zero .positive) trivial canonical rfl finite
  cases u with
  | notANumber => cases above
  | infinity sign =>
    cases sign with
    | positive => exact .inl rfl
    | negative => cases above
  | zero | finite => exact .inr ⟨rfl, (order rfl).mp above⟩

theorem compare_notANumber (u : UnpackedFloat) : u.compare .notANumber = none := by
  cases u <;> rfl

end Unpacked

section Floats

variable {x y : Float}

/-! ## What is no number -/

theorem isNaN_mul_left (nan : x.isNaN = true) : (x * y).isNaN = true :=
  isNaN_pack (u := mul _ x.toModel.unpack y.toModel.unpack) (by rw [eq_notANumber nan]; rfl)

theorem isFinite_eq_false_iff : x.isFinite = false ↔ x.isNaN = true ∨ x.isInf = true := by
  change x.toModel.unpack.isFinite = false ↔
    x.toModel.unpack.isNaN = true ∨ x.toModel.unpack.isInf = true
  cases x.toModel.unpack with
  | notANumber => exact iff_of_true rfl (.inl rfl)
  | infinity => exact iff_of_true rfl (.inr rfl)
  | zero | finite =>
    exact iff_of_false Bool.false_ne_true.symm fun either =>
      either.elim Bool.false_ne_true Bool.false_ne_true

theorem isNaN_add_left (nan : x.isNaN = true) : (x + y).isNaN = true :=
  isNaN_pack (u := add _ x.toModel.unpack y.toModel.unpack) (by rw [eq_notANumber nan]; rfl)

theorem isNaN_add_right (nan : y.isNaN = true) : (x + y).isNaN = true := by
  refine isNaN_pack (u := add _ x.toModel.unpack y.toModel.unpack) ?_
  rw [eq_notANumber nan]
  cases x.toModel.unpack <;> rfl

theorem isNaN_sub_right (nan : y.isNaN = true) : (x - y).isNaN = true := by
  refine isNaN_pack (u := sub _ x.toModel.unpack y.toModel.unpack) ?_
  rw [eq_notANumber nan]
  cases x.toModel.unpack <;> rfl

theorem isNaN_div_left (nan : x.isNaN = true) : (x / y).isNaN = true :=
  isNaN_pack (u := div _ x.toModel.unpack y.toModel.unpack) (by rw [eq_notANumber nan]; rfl)

theorem exists_zero_of_beq (zero : (x == 0) = true) : ∃ sign, x.toModel.unpack = .zero sign := by
  obtain ⟨finite, vanishes⟩ := beq_zero_iff.mp zero
  change x.toModel.unpack.isFinite = true at finite
  change value x.toModel.unpack = 0 at vanishes
  generalize x.toModel.unpack = u at finite vanishes ⊢
  cases u with
  | notANumber | infinity => cases finite
  | zero sign => exact ⟨sign, rfl⟩
  | finite sign m e pos => exact absurd vanishes (value_ne_zero pos e)

/-- Zero times what is not finite is no number. -/
theorem isNaN_mul_of_zero (zero : (x == 0) = true) (special : y.isFinite = false) :
    (x * y).isNaN = true := by
  refine isNaN_pack (u := mul _ x.toModel.unpack y.toModel.unpack) ?_
  obtain ⟨sign, same⟩ := exists_zero_of_beq zero
  rw [same]
  change y.toModel.unpack.isFinite = false at special
  generalize y.toModel.unpack = v at special ⊢
  cases v with
  | notANumber | infinity => rfl
  | _ => cases special

/-- A quotient of what is not finite is no number. -/
theorem isNaN_div_of_special (special : x.isFinite = false) (also : y.isFinite = false) :
    (x / y).isNaN = true := by
  refine isNaN_pack (u := div _ x.toModel.unpack y.toModel.unpack) ?_
  change x.toModel.unpack.isFinite = false at special
  change y.toModel.unpack.isFinite = false at also
  generalize x.toModel.unpack = u at special ⊢
  generalize y.toModel.unpack = v at also ⊢
  cases u with
  | notANumber => rfl
  | infinity =>
    cases v with
    | notANumber | infinity => rfl
    | _ => cases also
  | _ => cases special

theorem not_le_of_isNaN (nan : x.isNaN = true) : ¬ x ≤ y := by
  intro le
  replace le : x.toModel.unpack.le y.toModel.unpack = true := of_decide_eq_true le
  rw [eq_notANumber nan] at le
  cases le

theorem not_lt_of_isNaN (nan : x.isNaN = true) : ¬ x < y := by
  intro lt
  replace lt : x.toModel.unpack.lt y.toModel.unpack = true := of_decide_eq_true lt
  rw [eq_notANumber nan] at lt
  cases lt

theorem not_gt_of_isNaN (nan : x.isNaN = true) : ¬ y < x := by
  intro lt
  replace lt : y.toModel.unpack.lt x.toModel.unpack = true := of_decide_eq_true lt
  rw [eq_notANumber nan, UnpackedFloat.lt, compare_notANumber] at lt
  cases lt

/-- Sums and differences of numbers may run over, but not get lost. -/
theorem isNaN_add (finite : x.isFinite = true) (also : y.isFinite = true) :
    (x + y).isNaN = false :=
  (add_yields (isCanonical x) (isCanonical y) finite also).isNaN_pack

theorem isNaN_sub (finite : x.isFinite = true) (also : y.isFinite = true) :
    (x - y).isNaN = false :=
  (sub_yields (isCanonical x) (isCanonical y) finite also).isNaN_pack

/-! ## What is not below zero -/

theorem zero_le_iff : 0 ≤ x ↔ (UnpackedFloat.zero .positive).le x.toModel.unpack = true :=
  ⟨fun le => of_decide_eq_true le, fun le => decide_eq_true le⟩

theorem zero_le_mul_self (number : x.isNaN = false) : 0 ≤ x * x := by
  refine zero_le_iff.mpr ?_
  have canonical := isCanonical x
  change x.toModel.unpack.isNaN = false at number
  change (UnpackedFloat.zero .positive).le (unpack Format.binary64 (pack Format.binary64
    (mul Format.binary64 x.toModel.unpack x.toModel.unpack))) = true
  generalize x.toModel.unpack = u at canonical number ⊢
  cases u with
  | notANumber => cases number
  | infinity sign => cases sign <;> rfl
  | zero | finite =>
    exact (mul_yields canonical canonical rfl rfl).zero_le_pack
      (nearest_nonneg (mul_self_nonneg _))

theorem zero_le_add (first : 0 ≤ x) (second : 0 ≤ y) : 0 ≤ x + y := by
  refine zero_le_iff.mpr ?_
  have canonical := isCanonical x
  have too := isCanonical y
  change (UnpackedFloat.zero .positive).le (unpack Format.binary64 (pack Format.binary64
    (add Format.binary64 x.toModel.unpack y.toModel.unpack))) = true
  rcases zero_le_cases canonical (zero_le_iff.mp first) with large | ⟨finite, nonneg⟩
  · rcases zero_le_cases too (zero_le_iff.mp second) with huge | ⟨also, -⟩
    · rw [large, huge]
      rfl
    · rw [large]
      generalize y.toModel.unpack = v at also ⊢
      have infinite : add Format.binary64 (.infinity .positive) v = .infinity .positive := by
        cases v with
        | notANumber | infinity => cases also
        | _ => rfl
      rw [infinite]
      rfl
  · rcases zero_le_cases too (zero_le_iff.mp second) with huge | ⟨also, more⟩
    · rw [huge]
      generalize x.toModel.unpack = u at finite ⊢
      have infinite : add Format.binary64 u (.infinity .positive) = .infinity .positive := by
        cases u with
        | notANumber | infinity => cases finite
        | _ => rfl
      rw [infinite]
      rfl
    · exact (add_yields canonical too finite also).zero_le_pack
        (nearest_nonneg (add_nonneg nonneg more))

/-- What is not below zero and has run over is positive. -/
theorem pos_of_special (above : 0 ≤ x) (special : x.isFinite = false) : 0 < x := by
  change x.toModel.unpack.isFinite = false at special
  rcases zero_le_cases (isCanonical x) (zero_le_iff.mp above) with large | ⟨finite, -⟩
  · refine decide_eq_true (p := UnpackedFloat.lt _ _ = true) ?_
    rw [large]
    rfl
  · rw [special] at finite
    cases finite

theorem le_of_zero (zero : (x == 0) = true) (above : 0 ≤ y) : x ≤ y := by
  refine decide_eq_true (p := UnpackedFloat.le _ _ = true) ?_
  obtain ⟨sign, same⟩ := exists_zero_of_beq zero
  rw [same]
  rcases zero_le_cases (isCanonical y) (zero_le_iff.mp above) with large | ⟨finite, nonneg⟩
  · rw [large]
    rfl
  · exact (le_iff_value_le (u := .zero sign) trivial (isCanonical y) rfl finite).mpr nonneg

@[simp] theorem number_zero : number 0 = 0 := rfl

theorem lt_iff_number_lt (finite : x.isFinite = true) (also : y.isFinite = true) :
    x < y ↔ number x < number y := by
  have le := le_iff_value_le (isCanonical x) (isCanonical y) finite also
  have eq := compare_eq_iff (isCanonical x) (isCanonical y) finite also
  have lt : x < y ↔ x.toModel.unpack.lt y.toModel.unpack = true :=
    ⟨fun lt => of_decide_eq_true lt, fun lt => decide_eq_true lt⟩
  rw [lt, lt_iff_le_and_ne, number, number, ← le, Ne, ← eq, UnpackedFloat.lt, UnpackedFloat.le]
  rcases x.toModel.unpack.compare y.toModel.unpack with _ | _ | _ | _ <;> decide

/-! ## Zeros -/

theorem add_beq_zero (zero : (x == 0) = true) (also : (y == 0) = true) : (x + y == 0) = true := by
  obtain ⟨finite, vanishes⟩ := beq_zero_iff.mp zero
  obtain ⟨too, nothing⟩ := beq_zero_iff.mp also
  have rounded : nearest (number x + number y) = 0 := by
    rw [vanishes, nothing, add_zero, nearest_zero]
  have sum : (x + y).isFinite = true := by
    rw [isFinite_add_iff finite too, rounded, abs_zero]
    positivity
  exact beq_zero_iff.mpr ⟨sum, (number_add sum).trans rounded⟩

theorem mul_beq_zero (zero : (x == 0) = true) (also : y.isFinite = true) :
    (x * y == 0) = true := by
  obtain ⟨finite, vanishes⟩ := beq_zero_iff.mp zero
  have rounded : nearest (number x * number y) = 0 := by
    rw [vanishes, zero_mul, nearest_zero]
  have product : (x * y).isFinite = true := by
    rw [isFinite_mul_iff finite also, rounded, abs_zero]
    positivity
  exact beq_zero_iff.mpr ⟨product, (number_mul product).trans rounded⟩

theorem mul_self_beq_zero (zero : (x == 0) = true) : (x * x == 0) = true :=
  mul_beq_zero zero (beq_zero_iff.mp zero).1

/-- Two finite floats that stand for the same number have no difference. -/
theorem sub_beq_zero (finite : x.isFinite = true) (also : y.isFinite = true)
    (same : number x = number y) : (x - y == 0) = true := by
  have rounded : nearest (number x - number y) = 0 := by
    rw [same, sub_self, nearest_zero]
  have small : |nearest (number x - number y)| < 2 ^ 1024 := by
    rw [rounded, abs_zero]
    positivity
  exact beq_zero_iff.mpr ⟨(isFinite_sub_iff finite also).mpr small,
    (number_sub finite also small).trans rounded⟩

/-- A share of what is positive, be it infinite. -/
theorem div_beq_zero (zero : (x == 0) = true) (pos : 0 < y) : (x / y == 0) = true := by
  cases special : y.isFinite with
  | true =>
    obtain ⟨finite, vanishes⟩ := beq_zero_iff.mp zero
    have nonzero : number y ≠ 0 := ((lt_iff_number_lt rfl special).mp pos).ne'
    have rounded : nearest (number x / number y) = 0 := by
      rw [vanishes, zero_div, nearest_zero]
    have small : |nearest (number x / number y)| < 2 ^ 1024 := by
      rw [rounded, abs_zero]
      positivity
    exact beq_zero_iff.mpr ⟨(isFinite_div_iff finite special nonzero).mpr small,
      (number_div finite special nonzero small).trans rounded⟩
  | false =>
    obtain ⟨sign, same⟩ := exists_zero_of_beq zero
    have huge : ∃ other, y.toModel.unpack = .infinity other := by
      have number : ¬ y.toModel.unpack.isNaN = true := fun nan => not_gt_of_isNaN nan pos
      change y.toModel.unpack.isFinite = false at special
      generalize y.toModel.unpack = v at number special ⊢
      cases v with
      | infinity other => exact ⟨other, rfl⟩
      | notANumber => exact absurd rfl number
      | _ => cases special
    obtain ⟨other, infinite⟩ := huge
    have quotient : (x / y).toModel.unpack = .zero (sign / other) := by
      change unpack Format.binary64 (pack Format.binary64
        (div Format.binary64 x.toModel.unpack y.toModel.unpack)) = _
      rw [same, infinite]
      exact unpack_pack (u := .zero (sign / other)) trivial trivial
    refine beq_zero_iff.mpr ⟨?_, ?_⟩
    · change (x / y).toModel.unpack.isFinite = true
      rw [quotient]
      rfl
    · rw [number, quotient]
      rfl

end Floats

/-! ## Floats alike -/

/-- Whether two floats are finite for the same number, or neither of them is finite. -/
structure Alike (x y : Float) : Prop where
  isFinite_eq : x.isFinite = y.isFinite
  number_eq : number x = number y

namespace Alike

variable {x y z w : Float}

theorem refl (x : Float) : Alike x x := ⟨rfl, rfl⟩

theorem symm (same : Alike x y) : Alike y x :=
  ⟨same.isFinite_eq.symm, same.number_eq.symm⟩

theorem trans (same : Alike x y) (also : Alike y z) : Alike x z :=
  ⟨same.isFinite_eq.trans also.isFinite_eq, same.number_eq.trans also.number_eq⟩

theorem of_beq (same : (x == y) = true) (also : y.isFinite = true) : Alike x y := by
  have finite : x.isFinite = true := by
    replace same : (x.toModel.unpack.compare y.toModel.unpack == some .eq) = true := same
    change y.toModel.unpack.isFinite = true at also
    change x.toModel.unpack.isFinite = true
    generalize x.toModel.unpack = u at same ⊢
    generalize y.toModel.unpack = v at same also
    cases v with
    | notANumber | infinity => cases also
    | _ =>
      cases u with
      | notANumber => cases same
      | infinity sign => cases sign <;> cases same
      | _ => rfl
  exact ⟨finite.trans also.symm, (beq_iff_number_eq finite also).mp same⟩

/-- What is not finite stands for zero. -/
theorem of_special (special : x.isFinite = false) (also : y.isFinite = false) : Alike x y := by
  have nothing {z : Float} (special : z.isFinite = false) : number z = 0 := by
    change z.toModel.unpack.isFinite = false at special
    change value z.toModel.unpack = 0
    generalize z.toModel.unpack = u at special ⊢
    cases u with
    | notANumber | infinity => rfl
    | _ => cases special
  exact ⟨special.trans also.symm, (nothing special).trans (nothing also).symm⟩

theorem of_imp (forth : x.isFinite = true → y.isFinite = true ∧ number x = number y)
    (back : y.isFinite = true → x.isFinite = true) : Alike x y := by
  cases finite : x.isFinite with
  | true => exact ⟨finite.trans (forth finite).1.symm, (forth finite).2⟩
  | false =>
    have special : y.isFinite = false :=
      Bool.eq_false_iff.mpr fun also => Bool.eq_false_iff.mp finite (back also)
    exact of_special finite special

theorem sub_right (same : Alike x y) (finite : y.isFinite = true) (also : z.isFinite = true) :
    Alike (x - z) (y - z) := by
  have first := same.isFinite_eq.trans finite
  have iff : (x - z).isFinite = true ↔ (y - z).isFinite = true := by
    rw [isFinite_sub_iff first also, isFinite_sub_iff finite also, same.number_eq]
  refine of_imp (fun difference => ⟨iff.mp difference, ?_⟩) iff.mpr
  have small := (isFinite_sub_iff first also).mp difference
  rw [number_sub first also small]
  rw [same.number_eq] at small ⊢
  exact (number_sub finite also small).symm

theorem add_of_isFinite (same : Alike x y) (too : Alike z w) (sum : (x + z).isFinite = true) :
    (y + w).isFinite = true ∧ number (x + z) = number (y + w) := by
  obtain ⟨first, second⟩ := isFinite_of_add sum
  have also : (y + w).isFinite = true := by
    rw [isFinite_add_iff (same.isFinite_eq ▸ first) (too.isFinite_eq ▸ second), ← same.number_eq,
      ← too.number_eq]
    exact (isFinite_add_iff first second).mp sum
  exact ⟨also, by rw [number_add sum, number_add also, same.number_eq, too.number_eq]⟩

theorem add (same : Alike x y) (too : Alike z w) : Alike (x + z) (y + w) :=
  of_imp (same.add_of_isFinite too) fun sum => (same.symm.add_of_isFinite too.symm sum).1

theorem mul_of_isFinite (same : Alike x y) (too : Alike z w)
    (product : (x * z).isFinite = true) :
    (y * w).isFinite = true ∧ number (x * z) = number (y * w) := by
  obtain ⟨first, second⟩ := isFinite_of_mul product
  have also : (y * w).isFinite = true := by
    rw [isFinite_mul_iff (same.isFinite_eq ▸ first) (too.isFinite_eq ▸ second), ← same.number_eq,
      ← too.number_eq]
    exact (isFinite_mul_iff first second).mp product
  exact ⟨also, by rw [number_mul product, number_mul also, same.number_eq, too.number_eq]⟩

theorem mul (same : Alike x y) (too : Alike z w) : Alike (x * z) (y * w) :=
  of_imp (same.mul_of_isFinite too) fun product => (same.symm.mul_of_isFinite too.symm product).1

theorem beq_zero (same : Alike x y) (zero : (y == 0) = true) : (x == 0) = true := by
  obtain ⟨finite, vanishes⟩ := beq_zero_iff.mp zero
  exact beq_zero_iff.mpr ⟨same.isFinite_eq.trans finite, same.number_eq.trans vanishes⟩

/-- Taking away a zero changes nothing. -/
theorem sub_of_beq_zero (finite : x.isFinite = true) (zero : (y == 0) = true) :
    Alike (x - y) x := by
  obtain ⟨also, vanishes⟩ := beq_zero_iff.mp zero
  have rounded : nearest (number x - number y) = number x := by
    rw [vanishes, sub_zero, nearest_number]
  have small : |nearest (number x - number y)| < 2 ^ 1024 := by
    rw [rounded]
    exact abs_number_lt x
  exact ⟨((isFinite_sub_iff finite also).mpr small).trans finite.symm,
    (number_sub finite also small).trans rounded⟩

/-- A quotient of the same numbers is one. -/
theorem div_of_pos (same : Alike x y) (finite : y.isFinite = true) (pos : 0 < y) :
    (x / y).isFinite = true ∧ number (x / y) = 1 := by
  have first := same.isFinite_eq.trans finite
  have nonzero : number y ≠ 0 := ((lt_iff_number_lt rfl finite).mp pos).ne'
  have rounded : nearest (number x / number y) = 1 := by
    rw [same.number_eq, div_self nonzero, nearest_one]
  have small : |nearest (number x / number y)| < 2 ^ 1024 := by
    rw [rounded, abs_one]
    exact one_lt_pow₀ one_lt_two (by decide)
  exact ⟨(isFinite_div_iff first finite nonzero).mpr small,
    (number_div first finite nonzero small).trans rounded⟩

/-- The whole of the one leaves nothing of the other. -/
theorem sub_mul_beq_zero (same : Alike x y) (finite : y.isFinite = true)
    (share : z.isFinite = true) (one : number z = 1) : (x - z * y == 0) = true := by
  have rounded : nearest (number z * number y) = number y := by
    rw [one, one_mul, nearest_number]
  have product : (z * y).isFinite = true := by
    rw [isFinite_mul_iff share finite, rounded]
    exact abs_number_lt y
  refine sub_beq_zero (same.isFinite_eq.trans finite) product ?_
  rw [number_mul product, rounded, same.number_eq]

end Alike

end MotionRace.Binary64
