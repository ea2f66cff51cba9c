import MotionRace.Proofs.Binary64.Nearness
import MotionRace.Proofs.Decimal.Digits
import MotionRace.Proofs.Decimal.Parts
import MotionRace.Report.Elapsed

/-!
# What is reported of a duration

A duration is reported as its microseconds and as a text for a reader. Here the text is read back,
as an amount and the unit that it counts (`readDuration?`), and compared with the microseconds. The
unit is chosen before the amount is rounded, and the microseconds are cut to a word; both show at
the end of a range.

Main statement: `Elapsed.report_of_duration`.
-/

namespace MotionRace

open Binary64
open Decimal (Spells fixed joinPoint)
open Json (numeral)

/-! ## Texts of durations -/

/-- What durations are counted in. -/
inductive TimeUnit where
  | microsecond
  | millisecond
  | second
  | minute
  deriving Repr, DecidableEq

namespace TimeUnit

/-- How many microseconds there are in a unit. -/
def micros : TimeUnit → Nat
  | microsecond => 1
  | millisecond => 1000
  | second => 1000000
  | minute => 60000000

/-- The float that microseconds are divided by. -/
def divisor : TimeUnit → Float
  | microsecond => 1
  | millisecond => 1000
  | second => 1000000
  | minute => 60000000

def symbol : TimeUnit → String
  | microsecond => "µs"
  | millisecond => "ms"
  | second => "s"
  | minute => "m"

/-- How many digits stand behind the point. -/
def places : TimeUnit → Nat
  | microsecond => 0
  | millisecond => 3
  | second => 3
  | minute => 2

/-- How many microseconds the last digit counts. -/
def step : TimeUnit → Nat
  | microsecond => 1
  | millisecond => 1
  | second => 1000
  | minute => 600000

def next? : TimeUnit → Option TimeUnit
  | microsecond => some millisecond
  | millisecond => some second
  | second => some minute
  | minute => none

/-- The unit of a number of microseconds: the largest one that it fills. -/
def ofMicros (n : Nat) : TimeUnit :=
  if minute.micros ≤ n then minute
  else if second.micros ≤ n then second
  else if millisecond.micros ≤ n then millisecond
  else microsecond

theorem ofMicros_eq (n : Nat) :
    ofMicros n = if n < 1000 then microsecond else if n < 1000000 then millisecond
      else if n < 60000000 then second else minute := by
  change (if 60000000 ≤ n then minute else if 1000000 ≤ n then second
    else if 1000 ≤ n then millisecond else microsecond) = _
  split_ifs <;> first | rfl | omega

/-- Microseconds do not fill the unit after theirs. -/
theorem lt_of_next {n : Nat} {larger : TimeUnit} (next : (ofMicros n).next? = some larger) :
    n < larger.micros := by
  rw [ofMicros_eq] at next
  split_ifs at next with few short brief
  · cases next
    exact few
  · cases next
    exact short
  · cases next
    exact brief
  · cases next

def ofSymbol? (symbol : List Char) : Option TimeUnit :=
  [microsecond, millisecond, second, minute].find? (·.symbol.toList == symbol)

theorem micros_pos (unit : TimeUnit) : (0 : ℚ) < unit.micros := by
  cases unit <;> norm_num [micros]

theorem isFinite_divisor (unit : TimeUnit) : unit.divisor.isFinite = true := by
  cases unit <;> rfl

theorem number_divisor (unit : TimeUnit) : number unit.divisor = unit.micros := by
  have value_eq {m : Nat} {e : ℤ} {pos : 0 < m}
      (unpacked : unit.divisor.toModel.unpack = .finite .positive m e pos) :
      number unit.divisor = m * 2 ^ e := by
    rw [number, unpacked, value_positive]
  cases unit with
  | microsecond => rw [value_eq (m := 2 ^ 52) (e := -52) rfl]; norm_num [micros]
  | millisecond => rw [value_eq (m := 8796093022208000) (e := -43) rfl]; norm_num [micros]
  | second => rw [value_eq (m := 8589934592000000) (e := -33) rfl]; norm_num [micros]
  | minute => rw [value_eq (m := 8053063680000000) (e := -27) rfl]; norm_num [micros]

theorem step_mul (unit : TimeUnit) : (unit.step * 10 ^ unit.places : ℚ) = unit.micros := by
  cases unit <;> norm_num [step, micros, places]

theorem ofSymbol?_symbol (unit : TimeUnit) : ofSymbol? unit.symbol.toList = some unit := by
  cases unit <;> rfl

end TimeUnit

/-- The amount and the unit that a text spells. -/
def readDuration? (text : String) : Option (ℚ × TimeUnit) := do
  let (whole, rest) := text.toList.span Char.isDigit
  let (fraction, rest) ← Json.fraction? rest
  let unit ← TimeUnit.ofSymbol? rest
  return (numeral (whole ++ fraction) / 10 ^ fraction.length, unit)

theorem readDuration?_append {whole fraction : List Char} {amount : ℚ}
    (spells : Spells whole fraction amount) (unit : TimeUnit) :
    readDuration? (String.ofList (joinPoint whole fraction) ++ unit.symbol) =
      some (amount, unit) := by
  have ends : ∀ c ∈ unit.symbol.toList.head?, c.isDigit = false := by
    cases unit <;> (rintro c ⟨⟩; rfl)
  have bare : Json.fraction? unit.symbol.toList = some ([], unit.symbol.toList) := by
    cases unit <;> rfl
  have result : (numeral (whole ++ fraction) / 10 ^ fraction.length : ℚ) = amount := by
    rw [spells.numeral_eq, mul_div_cancel_right₀ _ (by positivity)]
  rw [readDuration?, String.toList_append, String.toList_ofList, joinPoint]
  split_ifs with wholeOnly
  · obtain rfl : fraction = [] := List.isEmpty_iff.mp wholeOnly
    rw [Decimal.span_digits spells.whole_digits ends]
    change (Json.fraction? unit.symbol.toList).bind _ = _
    rw [bare, ← result]
    change (TimeUnit.ofSymbol? unit.symbol.toList).bind _ = _
    rw [TimeUnit.ofSymbol?_symbol]
    rfl
  · have nonempty : fraction ≠ [] := fun empty => wholeOnly (List.isEmpty_iff.mpr empty)
    have point : ∀ c ∈ ('.' :: fraction ++ unit.symbol.toList).head?, c.isDigit = false := by
      rintro c ⟨⟩
      rfl
    rw [List.append_assoc, Decimal.span_digits spells.whole_digits point]
    change (Json.fraction? ('.' :: (fraction ++ unit.symbol.toList))).bind _ = _
    rw [Decimal.fraction?_point spells.fraction_digits nonempty ends, ← result]
    change (TimeUnit.ofSymbol? unit.symbol.toList).bind _ = _
    rw [TimeUnit.ofSymbol?_symbol]
    rfl

/-! ## Amounts -/

/-- The text of a positive float with a fixed number of places. -/
theorem fixed_of_pos {x : Float} (pos : 0 < number x) (places : Nat) :
    ∃ whole fraction, fixed places x = String.ofList (joinPoint whole fraction) ∧
      Spells whole fraction (roundEven (number x * 10 ^ places) / 10 ^ places) := by
  obtain ⟨m, e, mantissaPos, apart, unpacked⟩ := Decimal.unpack_of_number_pos pos
  have value_eq : number x = m * 2 ^ e := by
    rw [number, unpacked, value_positive]
  have rounded := Decimal.roundRatio_toEven (Decimal.ratio m e (-places)).1
    (Decimal.ratio_pos m e (-places))
  rw [Decimal.ratio_div, ← value_eq, zpow_neg, zpow_natCast, div_inv_eq_mul] at rounded
  rw [← rounded, Int.cast_natCast]
  refine ⟨_, _, ?_, (Decimal.spells_split _ places).1⟩
  rw [fixed, apart]
  rfl

/-- The amount that a number of microseconds is shown as in a unit: their share of the unit, to a
number of places. The number, its share and the places are rounded. -/
def TimeUnit.shown (unit : TimeUnit) (n : Nat) : ℚ :=
  roundEven (nearest (nearest n / unit.micros) * 10 ^ unit.places) / 10 ^ unit.places

section Shown

variable {m : UInt64} (unit : TimeUnit)

/-- A number of microseconds that fills a unit is divided by the unit. -/
theorem number_share (filled : unit.micros ≤ m.toNat) :
    0 < number (m.toFloat / unit.divisor) ∧
      number (m.toFloat / unit.divisor) = nearest (nearest m.toNat / unit.micros) := by
  have large := unit.micros_pos
  have same := unit.number_divisor
  have least : (1 : ℚ) ≤ nearest m.toNat / unit.micros := by
    have representable : nearest unit.micros = unit.micros := by rw [← same, nearest_number]
    rw [one_le_div large, ← representable]
    exact nearest_mono (by exact_mod_cast filled)
  have one : 1 ≤ nearest (nearest m.toNat / unit.micros) := nearest_one ▸ nearest_mono least
  have small : |nearest (nearest m.toNat / unit.micros)| < 2 ^ 1024 := by
    have whole : (1 : ℚ) ≤ unit.micros := by cases unit <;> norm_num [TimeUnit.micros]
    have share : nearest m.toNat / unit.micros ≤ number m.toFloat := by
      rw [number_toFloat]
      exact div_le_self (nearest_nonneg (Nat.cast_nonneg _)) whole
    rw [abs_of_pos (one_pos.trans_le one)]
    calc nearest (nearest m.toNat / unit.micros)
        ≤ number m.toFloat := nearest_number m.toFloat ▸ nearest_mono share
      _ ≤ |number m.toFloat| := le_abs_self _
      _ < 2 ^ 1024 := abs_number_lt _
  rw [← number_toFloat, ← same] at one small ⊢
  have quotient := number_div (isFinite_toFloat m) unit.isFinite_divisor (same.trans_ne large.ne')
    small
  exact ⟨quotient ▸ one_pos.trans_le one, quotient⟩

theorem readDuration?_share (filled : unit.micros ≤ m.toNat) :
    readDuration? (fixed unit.places (m.toFloat / unit.divisor) ++ unit.symbol) =
      some (unit.shown m.toNat, unit) := by
  obtain ⟨pos, share⟩ := number_share unit filled
  obtain ⟨whole, fraction, text, spells⟩ := fixed_of_pos pos unit.places
  rw [share] at spells
  rw [text, readDuration?_append spells]
  rfl

end Shown

/-! ## How near an amount is -/

namespace TimeUnit

variable {unit : TimeUnit} {n : Nat}

theorem shown_mul (unit : TimeUnit) (n : Nat) :
    unit.shown n * unit.micros =
      roundEven (nearest (nearest n / unit.micros) * 10 ^ unit.places) * unit.step := by
  rw [shown, ← step_mul]
  field_simp

/-- Rounding the share and rounding its places together miss by hardly more than half a step. -/
theorem abs_shown_sub_le (short : n < 2 ^ 53) (filled : unit.micros ≤ n) :
    |unit.shown n * unit.micros - n| ≤ unit.step / 2 + n / 2 ^ 53 := by
  have large := unit.micros_pos
  have normal : (2 ^ (-1022 : ℤ) : ℚ) ≤ n / unit.micros := by
    calc (2 ^ (-1022 : ℤ) : ℚ) ≤ 1 := zpow_le_one_of_nonpos₀ one_le_two (by decide)
      _ ≤ n / unit.micros := (one_le_div large).mpr (by exact_mod_cast filled)
  have share := abs_nearest_sub_le_div normal
  have rounded := abs_roundEven_sub_le (nearest (n / unit.micros) * 10 ^ unit.places)
  rw [shown_mul, nearest_natCast short]
  set x := nearest (n / unit.micros)
  set N := roundEven (x * 10 ^ unit.places)
  have split : (N * unit.step - n : ℚ) =
      (N - x * 10 ^ unit.places) * unit.step + (x - n / unit.micros) * unit.micros := by
    rw [sub_mul, sub_mul, div_mul_cancel₀ _ large.ne', ← step_mul]
    ring
  calc |(N * unit.step - n : ℚ)|
      ≤ |(N - x * 10 ^ unit.places) * unit.step| + |(x - n / unit.micros) * unit.micros| := by
        rw [split]
        exact abs_add_le _ _
    _ = |(N - x * 10 ^ unit.places)| * unit.step + |x - n / unit.micros| * unit.micros := by
        rw [abs_mul, abs_mul, Nat.abs_cast, Nat.abs_cast]
    _ ≤ 1 / 2 * unit.step + n / unit.micros / 2 ^ 53 * unit.micros := by gcongr
    _ = unit.step / 2 + n / 2 ^ 53 := by field_simp

theorem shown_microsecond (short : n < 2 ^ 53) : microsecond.shown n = n := by
  have whole : roundEven (n : ℚ) = n := roundEven_intCast n
  simp only [shown, micros, places, Nat.cast_one, div_one, pow_zero, mul_one,
    nearest_natCast short, whole, Int.cast_natCast]

theorem exists_near (short : n < 2 ^ 53) (filled : unit.micros ≤ n)
    (close : (unit.step / 2 + n / 2 ^ 53 : ℚ) < (unit.step / 2 : Nat) + 1) :
    ∃ N : ℤ, unit.shown n * unit.micros = N * unit.step ∧
      |N * unit.step - n| ≤ (unit.step / 2 : Nat) := by
  obtain ⟨N, amount⟩ : ∃ N : ℤ, unit.shown n * unit.micros = N * unit.step :=
    ⟨_, shown_mul unit n⟩
  have near := (abs_shown_sub_le short filled).trans_lt close
  rw [amount] at near
  refine ⟨N, amount, Int.lt_add_one_iff.mp ((Int.cast_lt (R := ℚ)).mp ?_)⟩
  push_cast
  exact near

/-- The amount in the unit that is filled is the nearest one with the places of the unit. -/
theorem shown_near (short : n < 2 ^ 53) :
    ∃ N : ℤ, (ofMicros n).shown n * (ofMicros n).micros = N * (ofMicros n).step ∧
      |N * (ofMicros n).step - n| ≤ ((ofMicros n).step / 2 : Nat) := by
  have part : (n / 2 ^ 53 : ℚ) < 1 := (div_lt_one (by positivity)).mpr (by exact_mod_cast short)
  rw [ofMicros_eq]
  split_ifs with few subsecond brief
  · refine ⟨n, ?_, ?_⟩
    · rw [shown_microsecond short]
      norm_num [micros, step]
    · norm_num [step]
  · refine exists_near short (not_lt.mp few) ?_
    have small : (n : ℚ) < 1000000 := by exact_mod_cast subsecond
    norm_num [step]
    linarith
  · refine exists_near short (not_lt.mp subsecond) ?_
    norm_num [step]
    linarith
  · refine exists_near short (not_lt.mp brief) ?_
    norm_num [step]
    linarith

/-- The half step at the end of 59.9995 seconds is rounded down: the float for them is smaller. -/
theorem shown_second : second.shown 59999500 = 59999 / 1000 := by
  have share := (number_share (m := 59999500) .second (by decide)).2
  have unpacked : ((59999500 : UInt64).toFloat / second.divisor).toModel.unpack =
      .finite .positive 8444178932575502 (-47) (by decide) := rfl
  have rounded :
      roundEven (number ((59999500 : UInt64).toFloat / second.divisor) * 10 ^ 3) = 59999 := by
    refine roundEven_eq_of_abs_lt ?_
    rw [number, unpacked, value_positive]
    norm_num [abs_lt]
  rw [share] at rounded
  exact congrArg (fun N : ℤ => (N / 10 ^ 3 : ℚ)) rounded

/-- Up to a second amounts are exact. -/
theorem shown_exact (few : n < 1000000) :
    (ofMicros n).shown n * (ofMicros n).micros = n := by
  obtain ⟨N, amount, near⟩ := shown_near (n := n) (by omega)
  have one : (ofMicros n).step = 1 := by
    rw [ofMicros_eq]
    split_ifs <;> rfl
  rw [one] at amount near
  have same : N = n := by
    norm_num at near
    omega
  rw [amount, same]
  norm_num

/-- Seconds reach a minute from the last half of a thousandth of a second on. -/
theorem shown_reaches_minute_iff (many : 1000000 ≤ n) (brief : n < 60000000) :
    (minute.micros : ℚ) ≤ second.shown n * second.micros ↔ 59999500 < n := by
  have unit : ofMicros n = second := by
    rw [ofMicros_eq, if_neg (by omega), if_neg (by omega), if_pos brief]
  obtain ⟨N, amount, near⟩ := shown_near (n := n) (by omega)
  rw [unit] at amount near
  norm_num [step, abs_le] at near
  have reached : (minute.micros : ℚ) ≤ second.shown n * second.micros ↔ 60000 ≤ N := by
    rw [amount, ← @Int.cast_le ℚ]
    norm_num [micros, step]
    constructor <;> intro le <;> linarith
  rw [reached]
  rcases eq_or_ne n 59999500 with rfl | other
  · have down : N = 59999 := by
      rw [shown_second] at amount
      norm_num [micros, step] at amount
      have whole : (N : ℚ) = (59999 : ℤ) := by
        push_cast
        linarith
      exact_mod_cast whole
    omega
  · omega

/-- An amount reaches the next unit where microseconds near the end of a minute are rounded up. -/
theorem shown_reaches_iff :
    (∃ larger, (ofMicros n).next? = some larger ∧
      larger.micros ≤ (ofMicros n).shown n * (ofMicros n).micros) ↔
      59999500 < n ∧ n < 60000000 := by
  rcases lt_or_ge n 1000000 with few | many
  · refine iff_of_false ?_ (by omega)
    rintro ⟨larger, next, reached⟩
    rw [shown_exact few] at reached
    have below := lt_of_next next
    have above : larger.micros ≤ n := by exact_mod_cast reached
    omega
  · rw [ofMicros_eq, if_neg (by omega), if_neg (by omega)]
    split_ifs with brief
    · rw [and_iff_left brief, ← shown_reaches_minute_iff many brief]
      constructor
      · rintro ⟨larger, ⟨⟩, reached⟩
        exact reached
      · intro reached
        exact ⟨minute, rfl, reached⟩
    · refine iff_of_false ?_ (by omega)
      rintro ⟨larger, ⟨⟩, -⟩

end TimeUnit

namespace Elapsed

theorem toNat_micros (d : Elapsed) : d.micros.toNat = d.nanos / 1000 % 2 ^ 64 :=
  UInt64.toNat_ofNat'

/-- Every text is read as the amount of the unit that the microseconds fill. -/
theorem readDuration?_human (d : Elapsed) :
    readDuration? d.human = some ((TimeUnit.ofMicros d.micros.toNat).shown d.micros.toNat,
      .ofMicros d.micros.toNat) := by
  rw [human, TimeUnit.ofMicros_eq]
  generalize d.micros = m
  simp only [UInt64.lt_iff_toNat_lt, UInt64.reduceToNat]
  split_ifs with few short brief
  · have digits : toString m = String.ofList (joinPoint (Decimal.digitsOf m.toNat) []) :=
      Nat.repr_eq_ofList_toDigits
    rw [digits, TimeUnit.shown_microsecond (by omega)]
    exact readDuration?_append (Decimal.spells_digitsOf m.toNat) .microsecond
  · exact readDuration?_share .millisecond (not_lt.mp few)
  · exact readDuration?_share .second (not_lt.mp short)
  · exact readDuration?_share .minute (not_lt.mp brief)

/-- The microseconds of a duration are a word, so they begin again at zero where the word runs over.
Below that they and their text are those of the duration, with one exception: in the last half of a
thousandth of a second before a minute the text shows sixty seconds. -/
theorem report_of_duration (d : Elapsed) :
    -- Whole microseconds are counted as far as 64 bits go, and of the durations up to there a
    -- longer one has no fewer.
    (d.micros.toNat = d.nanos / 1000 ↔ d.nanos < 1000 * 2 ^ 64) ∧
    (∀ longer : Elapsed, d.nanos ≤ longer.nanos → longer.nanos < 1000 * 2 ^ 64 →
      d.micros ≤ longer.micros) ∧
    let n := d.micros.toNat
    let unit := TimeUnit.ofMicros n
    -- The text is an amount of the unit that they fill. It is exact below a second, and otherwise
    -- the nearest with its places as long as the microseconds are a float.
    ∃ amount, readDuration? d.human = some (amount, unit) ∧
      (n < 1000000 → amount * unit.micros = n) ∧
      (n < 2 ^ 53 → |amount * unit.micros - n| ≤ unit.step / 2) ∧
      -- The amount comes up to the next unit just before a minute, and nowhere else.
      ((∃ larger, unit.next? = some larger ∧ larger.micros ≤ amount * unit.micros) ↔
        59999500 < n ∧ n < 60000000) := by
  refine ⟨?_, ?_, ?_⟩
  · have word := d.toNat_micros
    omega
  · intro longer le fits
    have word := d.toNat_micros
    have longest := longer.toNat_micros
    rw [UInt64.le_iff_toNat_le]
    omega
  · intro n unit
    refine ⟨unit.shown n, d.readDuration?_human, TimeUnit.shown_exact, ?_,
      TimeUnit.shown_reaches_iff⟩
    intro short
    obtain ⟨N, amount, near⟩ := TimeUnit.shown_near short
    have whole := (Int.cast_le (R := ℚ)).mpr near
    push_cast at whole
    rw [amount]
    exact whole.trans Nat.cast_div_le

theorem sixty_seconds_and_no_time :
    (ofParts 59 999999999).human = "60.000s" ∧
    readDuration? "60.000s" = some (60, .second) ∧
    TimeUnit.ofMicros (ofParts 59 999999999).micros.toNat = .second ∧
    (TimeUnit.minute.micros : ℚ) ≤ 60 * TimeUnit.second.micros ∧
    (ofParts 18446744073709 551616000).micros = 0 := by
  refine ⟨by decide +kernel, by decide +kernel, by decide +kernel, ?_, by decide +kernel⟩
  norm_num [TimeUnit.micros]

end Elapsed

end MotionRace
