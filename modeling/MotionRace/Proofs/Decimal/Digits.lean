import Mathlib
import MotionRace.Decimal.Text
import MotionRace.Json.Reader

/-!
# Digits read back

The decimal digits of a number read back to it, with zeros in front of them or without. A run of
digits is read up to the first character that is no digit. `Spells` says what two runs with a point
between them stand for; putting the point in front of the last digits divides by a power of ten.
-/

namespace MotionRace.Decimal

open Json (numeral)

variable {n : Nat} {cs ds rest : List Char}

theorem numeral_append (cs ds : List Char) :
    numeral (cs ++ ds) = numeral cs * 10 ^ ds.length + numeral ds := by
  change Nat.ofDigitChars 10 (cs ++ ds) 0 =
    Nat.ofDigitChars 10 cs 0 * 10 ^ ds.length + Nat.ofDigitChars 10 ds 0
  rw [Nat.ofDigitChars_append, Nat.ofDigitChars_eq_ofDigitChars_zero, mul_comm]

/-- The digits of a number read back. -/
@[simp] theorem numeral_digitsOf (n : Nat) : numeral (digitsOf n) = n :=
  Nat.ofDigitChars_ten_toDigits

theorem numeral_zeros (k : Nat) : numeral (List.replicate k '0') = 0 := by
  change Nat.ofDigitChars 10 (List.replicate k '0') 0 = 0
  rw [Nat.ofDigitChars_replicate_zero, mul_zero]

/-- Zeros in front do not count. -/
@[simp] theorem numeral_padLeft (width : Nat) (ds : List Char) :
    numeral (padLeft width ds) = numeral ds := by
  rw [padLeft, numeral_append, numeral_zeros, zero_mul, zero_add]

theorem digitsOf_ne_nil (n : Nat) : digitsOf n ≠ [] := Nat.toDigits_ne_nil

theorem isDigit_of_mem_digitsOf {c : Char} (mem : c ∈ digitsOf n) : c.isDigit = true :=
  Nat.isDigit_of_mem_toDigits (by decide) (by decide) mem

theorem isDigit_of_mem_padLeft {c : Char} {width : Nat} (digits : ∀ c ∈ ds, c.isDigit = true)
    (mem : c ∈ padLeft width ds) : c.isDigit = true := by
  rcases List.mem_append.mp mem with zero | digit
  · rw [List.eq_of_mem_replicate zero]
    rfl
  · exact digits c digit

/-- A number other than zero is written without a zero in front. -/
theorem head?_digitsOf (pos : 0 < n) : (digitsOf n).head? ≠ some '0' := by
  induction n using Nat.strong_induction_on with
  | _ n ih =>
    rw [digitsOf, Nat.toDigits_eq_if (by decide)]
    split
    next small =>
      intro zero
      have digit : n.digitChar = '0' := by simpa using zero
      interval_cases n <;> exact absurd digit (by decide)
    next large =>
      have shorter := ih (n / 10) (by omega) (by omega)
      rw [digitsOf] at shorter
      rw [List.head?_append_of_ne_nil _ Nat.toDigits_ne_nil]
      exact shorter

/-- Digits are cut off before what is not a digit. -/
theorem span_digits (digits : ∀ c ∈ ds, c.isDigit = true)
    (ends : ∀ c ∈ rest.head?, c.isDigit = false) :
    (ds ++ rest).span Char.isDigit = (ds, rest) := by
  rw [List.span_eq_takeWhile_dropWhile, List.takeWhile_append_of_pos digits,
    List.dropWhile_append_of_pos digits]
  cases rest with
  | nil => simp
  | cons c rest =>
    have other : c.isDigit = false := ends c rfl
    simp [other]

/-- What stands behind a point is read up to the end of its digits. -/
theorem fraction?_point (digits : ∀ c ∈ ds, c.isDigit = true) (nonempty : ds ≠ [])
    (ends : ∀ c ∈ rest.head?, c.isDigit = false) :
    Json.fraction? ('.' :: (ds ++ rest)) = .some (ds, rest) := by
  rw [Json.fraction?, span_digits digits ends]
  exact if_neg (by rwa [List.isEmpty_iff])

/-- Digits in front of a point and behind it, for a number. -/
structure Spells (whole fraction : List Char) (q : ℚ) : Prop where
  whole_digits : ∀ c ∈ whole, c.isDigit = true
  fraction_digits : ∀ c ∈ fraction, c.isDigit = true
  whole_ne_nil : whole ≠ []
  first_ne_zero : 1 < whole.length → whole.head? ≠ some '0'
  numeral_eq : (numeral (whole ++ fraction) : ℚ) = q * 10 ^ fraction.length

/-- The digits in front of a point are what a number may begin with. -/
theorem Spells.proper {whole fraction : List Char} {q : ℚ} (spells : Spells whole fraction q) :
    (whole.isEmpty || (1 < whole.length && whole.head? == some '0')) = false := by
  rw [List.isEmpty_eq_false_iff.mpr spells.whole_ne_nil, Bool.false_or, Bool.and_eq_false_imp]
  exact fun more => beq_eq_false_iff_ne.mpr (spells.first_ne_zero (of_decide_eq_true more))

theorem pos_of_long (long : 1 < (digitsOf n).length) : 0 < n := by
  by_contra zero
  obtain rfl : n = 0 := by omega
  exact absurd long (by simp [digitsOf])

/-- A whole number needs no point. -/
theorem spells_digitsOf (n : Nat) : Spells (digitsOf n) [] n where
  whole_digits _ mem := isDigit_of_mem_digitsOf mem
  fraction_digits := List.forall_mem_nil _
  whole_ne_nil := digitsOf_ne_nil n
  first_ne_zero long := head?_digitsOf (pos_of_long long)
  numeral_eq := by rw [List.append_nil, numeral_digitsOf, List.length_nil, pow_zero, mul_one]

/-- A point is put in front of the last digits of a number. -/
theorem spells_split (n places : Nat) :
    let ds := padLeft (places + 1) (digitsOf n)
    Spells (ds.take (ds.length - places)) (ds.drop (ds.length - places)) (n / 10 ^ places) ∧
      (ds.drop (ds.length - places)).length = places := by
  intro ds
  have long : places + 1 ≤ ds.length := by
    simp only [ds, padLeft, List.length_append, List.length_replicate]
    omega
  have digits : ∀ c ∈ ds, c.isDigit = true := fun c mem =>
    isDigit_of_mem_padLeft (fun c mem => isDigit_of_mem_digitsOf mem) mem
  have length : (ds.drop (ds.length - places)).length = places := by
    rw [List.length_drop]
    omega
  refine ⟨⟨fun c mem => digits c (List.mem_of_mem_take mem),
    fun c mem => digits c (List.mem_of_mem_drop mem), ?_, ?_, ?_⟩, length⟩
  · rw [← List.length_pos_iff, List.length_take]
    omega
  · intro more
    -- More than one digit in front of the point leaves no room for zeros in front.
    have many : places + 1 < (digitsOf n).length := by
      simp only [ds, padLeft, List.length_take, List.length_append, List.length_replicate] at more
      omega
    have bare : ds = digitsOf n := by
      simp only [ds, padLeft, Nat.sub_eq_zero_of_le many.le, List.replicate_zero, List.nil_append]
    rw [List.head?_take, if_neg (by omega), bare]
    exact head?_digitsOf (pos_of_long (by omega))
  · rw [List.take_append_drop, length, numeral_padLeft, numeral_digitsOf,
      div_mul_cancel₀ _ (by positivity)]

theorem spells_zeros {d : Nat} (pos : 0 < d) (k : Nat) :
    Spells (digitsOf d ++ List.replicate k '0') [] (d * 10 ^ k) where
  whole_digits c mem := by
    rcases List.mem_append.mp mem with digit | zero
    · exact isDigit_of_mem_digitsOf digit
    · rw [List.eq_of_mem_replicate zero]
      rfl
  fraction_digits := List.forall_mem_nil _
  whole_ne_nil empty := digitsOf_ne_nil d (List.append_eq_nil_iff.mp empty).1
  first_ne_zero _ := by
    rw [List.head?_append_of_ne_nil _ (digitsOf_ne_nil d)]
    exact head?_digitsOf pos
  numeral_eq := by
    rw [List.append_nil, numeral_append, numeral_zeros, numeral_digitsOf,
      List.length_replicate, add_zero, List.length_nil, pow_zero, mul_one]
    push_cast
    rfl

/-- A whole number stays what it is with a zero behind the point. -/
theorem Spells.point_zero {whole : List Char} {q : ℚ} (spells : Spells whole [] q) :
    Spells whole ['0'] q where
  whole_digits := spells.whole_digits
  fraction_digits c mem := by
    rw [List.mem_singleton.mp mem]
    rfl
  whole_ne_nil := spells.whole_ne_nil
  first_ne_zero := spells.first_ne_zero
  numeral_eq := by
    have value := spells.numeral_eq
    rw [List.append_nil, List.length_nil, pow_zero, mul_one] at value
    rw [numeral_append, ← value, List.length_singleton, pow_one]
    push_cast
    exact add_zero _

/-- The positional form of a decimal, with a digit behind the point. -/
theorem spells_positional {s : Scientific} (pos : 0 < s.digits) :
    ∃ fraction, (if s.positional.2.isEmpty then ['0'] else s.positional.2) = fraction ∧
      fraction.isEmpty = false ∧
      Spells s.positional.1 fraction (s.digits * 10 ^ s.exponent) ∧
      numeral (s.positional.1 ++ fraction) ≤ s.digits * 10 ^ (s.exponent + 1).toNat := by
  by_cases sign : 0 ≤ s.exponent
  · have form : s.positional = (digitsOf s.digits ++ List.replicate s.exponent.toNat '0', []) :=
      if_pos sign
    have same : (s.digits * 10 ^ s.exponent.toNat : ℚ) = s.digits * 10 ^ s.exponent := by
      rw [← zpow_natCast, Int.toNat_of_nonneg sign]
    have spells := (spells_zeros pos s.exponent.toNat).point_zero
    have next : (s.exponent + 1).toNat = s.exponent.toNat + 1 := by omega
    have value := spells.numeral_eq
    rw [List.length_singleton, pow_one, mul_assoc, ← pow_succ, ← next] at value
    rw [form]
    exact ⟨['0'], rfl, rfl, same ▸ spells, by exact_mod_cast value.le⟩
  · have same : (s.digits / 10 ^ (-s.exponent).toNat : ℚ) = s.digits * 10 ^ s.exponent := by
      rw [← zpow_natCast, Int.toNat_of_nonneg (by omega), zpow_neg, div_inv_eq_mul]
    obtain ⟨spells, length⟩ := spells_split s.digits (-s.exponent).toNat
    have value := spells.numeral_eq
    set ds := padLeft ((-s.exponent).toNat + 1) (digitsOf s.digits)
    have form : s.positional = (ds.take (ds.length - (-s.exponent).toNat),
        ds.drop (ds.length - (-s.exponent).toNat)) := if_neg sign
    have nonempty : (ds.drop (ds.length - (-s.exponent).toNat)).isEmpty = false := by
      rw [List.isEmpty_eq_false_iff, ← List.length_pos_iff, length]
      omega
    rw [length, div_mul_cancel₀ _ (by positivity)] at value
    rw [form]
    refine ⟨_, if_neg (by rw [nonempty]; exact Bool.false_ne_true), nonempty, same ▸ spells, ?_⟩
    have digits : numeral (ds.take (ds.length - (-s.exponent).toNat) ++
        ds.drop (ds.length - (-s.exponent).toNat)) = s.digits := by exact_mod_cast value
    rw [digits]
    exact Nat.le_mul_of_pos_right _ (by positivity)

/-- One digit in front of the point, and the others behind it. -/
theorem spells_exponentMantissa (d : Nat) :
    ∃ first others, exponentMantissa (digitsOf d) = joinPoint [first] others ∧
      first :: others = digitsOf d ∧ Spells [first] others (d / 10 ^ others.length) := by
  cases split : digitsOf d with
  | nil => exact absurd split (digitsOf_ne_nil d)
  | cons first others =>
    have digits : ∀ c ∈ first :: others, c.isDigit = true :=
      fun c mem => isDigit_of_mem_digitsOf (split ▸ mem)
    refine ⟨first, others, rfl, rfl, ?_⟩
    exact {
      whole_digits := fun c mem => digits c (by simpa using Or.inl (List.mem_singleton.mp mem))
      fraction_digits := fun c mem => digits c (List.mem_cons_of_mem first mem)
      whole_ne_nil := List.cons_ne_nil first []
      first_ne_zero := fun long => absurd long (lt_irrefl 1)
      numeral_eq := by
        rw [List.singleton_append, ← split, numeral_digitsOf, div_mul_cancel₀ _ (by positivity)] }

end MotionRace.Decimal
