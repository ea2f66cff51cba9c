import MotionRace.Json.Printer
import MotionRace.Proofs.Decimal.Digits
import MotionRace.Proofs.Decimal.Shortest

/-!
# Numbers read back

A finite float is written as a sign and digits with a point, an exponent or both, so it is not taken
for a whole number, and it is read as the float it was (`number?_json`). The digits may be followed
by anything that does not continue a number. A float that is not finite is written as `null`.
-/

namespace MotionRace.Json

open Decimal (Scientific Spells joinPoint digitsOf exponentMantissa signed)

variable {x : Float} {whole fraction rest tail : List Char} {q : ℚ}

/-- Whether a number could go on with a character. -/
def continues (c : Char) : Bool := c.isDigit || c == '.' || c == 'e' || c == 'E'

/-- Whether a number that stands before some characters ends there. -/
def Stops (rest : List Char) : Prop := ∀ c ∈ rest.head?, continues c = false

/-! ## Reading digits -/

theorem exponent?_of_stops (stops : Stops rest) : exponent? rest = some (none, rest) := by
  cases rest with
  | nil => rfl
  | cons c rest =>
    have other := stops c rfl
    simp only [continues, Bool.or_eq_false_iff, beq_eq_false_iff_ne] at other
    simp [exponent?, other.1.2, other.2]

/-- A written exponent. -/
theorem exponent?_of_digits (leading : ℤ) {rest : List Char}
    (ends : ∀ c ∈ rest.head?, c.isDigit = false) :
    exponent? ('e' :: (if leading < 0 then '-' else '+') :: (digitsOf leading.natAbs ++ rest)) =
      some (some leading, rest) := by
  have nonempty : (digitsOf leading.natAbs).isEmpty = false :=
    List.isEmpty_eq_false_iff.mpr (Decimal.digitsOf_ne_nil _)
  have digits := Decimal.span_digits
    (fun c mem => Decimal.isDigit_of_mem_digitsOf (n := leading.natAbs) mem) ends
  split_ifs with below
  · have negative : -(leading.natAbs : ℤ) = leading := by omega
    simp only [exponent?, digits, nonempty, Decimal.numeral_digitsOf, negative, true_or, if_true,
      Bool.false_eq_true, if_false]
  · have positive : (leading.natAbs : ℤ) = leading := by omega
    simp only [exponent?, digits, nonempty, Decimal.numeral_digitsOf, positive, true_or, if_true,
      Bool.false_eq_true, if_false]

theorem fraction?_of_ends (ends : ∀ c ∈ tail.head?, c.isDigit = false ∧ c ≠ '.') :
    fraction? tail = some ([], tail) := by
  cases tail with
  | nil => rfl
  | cons c tail =>
    have other : c ≠ '.' := (ends c rfl).2
    simp [fraction?, other]

/-- Digits in front of a point and behind it, and what they are followed by, are read as the float
that is nearest. -/
theorem magnitude?_joinPoint {exponent : Option ℤ} (negative : Bool)
    (spells : Spells whole fraction q)
    (ends : ∀ c ∈ tail.head?, c.isDigit = false ∧ c ≠ '.')
    (read : exponent? tail = some (exponent, rest))
    (marked : fraction.isEmpty = true → exponent.isNone = false) :
    magnitude? negative (joinPoint whole fraction ++ tail) =
      let y := Decimal.nearest negative (numeral (whole ++ fraction))
        (exponent.getD 0 - fraction.length)
      if y.isFinite then some (.number y, rest) else none := by
  have digits : ∀ c ∈ tail.head?, c.isDigit = false := fun c mem => (ends c mem).1
  have proper := spells.proper
  have pointed : ∀ small, (!negative && fraction.isEmpty && exponent.isNone && small) = false := by
    intro small
    cases empty : fraction.isEmpty with
    | true => rw [marked empty, Bool.and_false, Bool.false_and]
    | false => rw [Bool.and_false, Bool.false_and, Bool.false_and]
  obtain ⟨after, cut, point⟩ : ∃ after,
      (joinPoint whole fraction ++ tail).span Char.isDigit = (whole, after) ∧
      fraction? after = .some (fraction, tail) := by
    rw [joinPoint]
    split_ifs with bare
    · obtain rfl : fraction = [] := List.isEmpty_iff.mp bare
      exact ⟨tail, Decimal.span_digits spells.whole_digits digits, fraction?_of_ends ends⟩
    · have more : fraction ≠ [] := fun empty => bare (List.isEmpty_iff.mpr empty)
      have dot : ∀ c ∈ ('.' :: fraction ++ tail).head?, c.isDigit = false := by
        rintro c ⟨⟩
        rfl
      refine ⟨'.' :: fraction ++ tail, ?_,
        Decimal.fraction?_point spells.fraction_digits more digits⟩
      rw [List.append_assoc, Decimal.span_digits spells.whole_digits dot]
  simp only [magnitude?, cut, point, read, proper, pointed, Option.bind_eq_bind, Option.bind_some,
    Option.pure_def, Bool.false_eq_true, if_false]

/-! ## Written floats -/

theorem not_digit_of_stops (stops : Stops rest) :
    ∀ c ∈ rest.head?, c.isDigit = false ∧ c ≠ '.' := by
  intro c mem
  have other := stops c mem
  simp only [continues, Bool.or_eq_false_iff, beq_eq_false_iff_ne] at other
  exact ⟨other.1.1.1, other.1.1.2⟩

section Written

variable {s : Scientific} (reads : s.ReadsAs x) (nonzero : Binary64.number x ≠ 0)
  {negative : Bool} (finite : (if negative then -x else x).isFinite = true) (stops : Stops rest)

include reads nonzero finite stops

theorem magnitude?_positional (short : s.exponent < 16) :
    magnitude? negative (joinPoint s.positional.1
      (if s.positional.2.isEmpty then ['0'] else s.positional.2) ++ rest) =
      some (.number (if negative then -x else x), rest) := by
  obtain ⟨fraction, form, nonempty, spells, bound⟩ := Decimal.spells_positional reads.pos
  have pointed (empty : fraction.isEmpty = true) : (none : Option ℤ).isNone = false := by
    rw [nonempty] at empty
    cases empty
  rw [form, magnitude?_joinPoint negative spells (not_digit_of_stops stops)
    (exponent?_of_stops stops) pointed, reads.nearest_eq_signed nonzero]
  · exact if_pos finite
  · have power : 10 ^ (s.exponent + 1).toNat ≤ 10 ^ 16 :=
      Nat.pow_le_pow_right (by decide) (by omega)
    exact (bound.trans (Nat.mul_le_mul reads.few power)).trans_lt (by decide)
  · rw [spells.numeral_eq, mul_assoc, Option.getD_none, zero_sub, zpow_neg, zpow_natCast,
      mul_inv_cancel₀ (by positivity), mul_one]

theorem magnitude?_exponent {leading : ℤ}
    (leads : leading = s.exponent + (digitsOf s.digits).length - 1) :
    magnitude? negative (exponentMantissa (digitsOf s.digits) ++
      'e' :: (if leading < 0 then '-' else '+') :: digitsOf leading.natAbs ++ rest) =
      some (.number (if negative then -x else x), rest) := by
  obtain ⟨first, others, form, split, spells⟩ := Decimal.spells_exponentMantissa s.digits
  have length : leading = s.exponent + others.length := by
    rw [leads, ← split, List.length_cons]
    omega
  have point : ∀ c ∈ ('e' :: (if leading < 0 then '-' else '+') ::
      (digitsOf leading.natAbs ++ rest)).head?, c.isDigit = false ∧ c ≠ '.' := by
    rintro c ⟨⟩
    decide
  have exponent := exponent?_of_digits leading fun c mem => (not_digit_of_stops stops c mem).1
  have whole : numeral ([first] ++ others) = s.digits := by
    rw [List.singleton_append, split, Decimal.numeral_digitsOf]
  have few := reads.few
  have result := magnitude?_joinPoint negative spells point exponent (fun _ => rfl)
  rw [whole, reads.nearest_eq_signed nonzero (by omega)] at result
  · rw [form, List.append_assoc]
    exact result.trans (if_pos finite)
  · rw [length, Option.getD_some, add_sub_cancel_right]

/-- A decimal that is rounded to a float is read as the float in either form. -/
theorem magnitude?_json : magnitude? negative (s.json ++ rest) =
    some (.number (if negative then -x else x), rest) := by
  have digits : 0 < (digitsOf s.digits).length :=
    List.length_pos_iff.mpr (Decimal.digitsOf_ne_nil _)
  unfold Scientific.json
  by_cases near : -5 ≤ s.exponent + (digitsOf s.digits).length - 1 ∧
      s.exponent + (digitsOf s.digits).length - 1 < 16
  · rw [if_pos near]
    exact magnitude?_positional reads nonzero finite stops (by omega)
  · rw [if_neg near]
    exact magnitude?_exponent reads nonzero finite stops rfl

end Written

/-- A number begins with a digit, so it is not taken for one with a sign. -/
theorem number?_signed {negative : Bool} {cs : List Char} {found : Value × List Char}
    (read : magnitude? negative (cs ++ rest) = some found) :
    number? ((signed negative cs).toList ++ rest) = some found := by
  rw [signed, String.toList_ofList]
  cases negative with
  | true => exact read
  | false =>
    change number? (cs ++ rest) = some found
    unfold number?
    split
    next after minus =>
      rw [minus] at read
      cases read
    next => exact read

/-- A finite float is read back from its text. -/
theorem number?_json (finite : x.isFinite = true) (stops : Stops rest) :
    number? ((Decimal.json x).toList ++ rest) = some (.number x, rest) := by
  obtain ⟨negative, m, e, apart, positive, sign⟩ := Decimal.parts_of_isFinite finite
  rw [Decimal.json, apart]
  dsimp only
  split_ifs with zero
  · rw [zero] at positive
    have read (power : ℤ) : Decimal.nearest negative 0 power = x := by
      rw [sign, Decimal.eq_zero_of_parts positive]
      simp [Decimal.nearest]
    have spells : Spells ['0'] ['0'] ((0 : Nat) : ℚ) := (Decimal.spells_digitsOf 0).point_zero
    have result := magnitude?_joinPoint negative spells (not_digit_of_stops stops)
      (exponent?_of_stops stops) (fun empty => by cases empty)
    have digits : numeral (['0'] ++ ['0']) = 0 := rfl
    rw [digits, read] at result
    exact number?_signed (result.trans (if_pos finite))
  · have mantissaPos : 0 < m := Nat.pos_of_ne_zero zero
    have unpacked := Decimal.unpack_of_parts mantissaPos positive
    have reads := Decimal.shortest_readsAs .toEven unpacked
    have nonzero : Binary64.number x.abs ≠ 0 := by
      rw [Decimal.number_of_unpack unpacked]
      exact (Binary64.magnitude_pos mantissaPos e).ne'
    have result := magnitude?_json reads nonzero (sign ▸ finite) stops
    rw [← sign] at result
    exact number?_signed result

/-- A whole number that is a word is read back from its text. -/
theorem number?_natural {n : Nat} (small : n < UInt64.size) (stops : Stops rest) :
    number? ((toString n).toList ++ rest) = some (.natural n, rest) := by
  have ends := not_digit_of_stops stops
  have spells := Decimal.spells_digitsOf n
  have cut := Decimal.span_digits spells.whole_digits fun c mem => (ends c mem).1
  have digits : (toString n).toList = (signed false (digitsOf n)).toList := by
    rw [signed, String.toList_ofList]
    exact Nat.toList_repr
  rw [digits]
  apply number?_signed
  simp only [magnitude?, cut, spells.proper, fraction?_of_ends ends, exponent?_of_stops stops,
    Option.bind_eq_bind, Option.bind_some, Bool.false_eq_true, if_false, Decimal.numeral_digitsOf,
    small]
  rfl

theorem json_of_special (special : x.isFinite = false) : Decimal.json x = "null" := by
  rw [Decimal.json]
  rcases Decimal.parts_of_special special with nan | ⟨negative, infinite⟩
  · rw [nan]
  · rw [infinite]

end MotionRace.Json
