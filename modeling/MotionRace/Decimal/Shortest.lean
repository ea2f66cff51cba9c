import MotionRace.Decimal.Read

/-!
# The fewest digits that read back

`shortest` finds, for a positive finite float, the decimal with the fewest digits that reads back to
the same float and, of those, the nearest one. It tries 1, 2, … 17 digits; on the grid of decimals
with that many digits only the two neighbours of the value can be the answer, and the nearer one is
tried first. Seventeen digits always read back.
-/

namespace MotionRace.Decimal

/-- A positive decimal `digits * 10 ^ exponent`. -/
structure Scientific where
  digits : Nat
  exponent : Int
  deriving Repr, DecidableEq

/-- Whether `mantissa * 2 ^ exponent` is at least `10 ^ power`. -/
def reachesPower (mantissa : Nat) (exponent power : Int) : Bool :=
  let (num, den) := ratio mantissa exponent power
  den ≤ num

/-- The exponent of the leading decimal digit of `mantissa * 2 ^ exponent`. The first guess comes
from the number of bits and is at most one too small. -/
def leadingPower (mantissa : Nat) (exponent : Int) : Int :=
  let guess := ((mantissa.log2 : Int) + exponent) * 30103 / 100000
  if reachesPower mantissa exponent (guess + 1) then guess + 1 else guess

/-- The two neighbours of `num / den` among the whole numbers, the nearer one first; an exact half
goes as `tie` says. A whole value is its own neighbour. -/
def neighbours (tie : Tie) (num den : Nat) : List Nat :=
  let low := num / den
  if num % den = 0 then [low]
  else
    let first := roundRatio tie num den
    [first, 2 * low + 1 - first]

/-- The neighbours of the value on the grid of `count`-digit decimals. -/
def onGrid (tie : Tie) (mantissa : Nat) (exponent : Int) (count : Nat) : List Scientific :=
  let unit := leadingPower mantissa exponent + 1 - count
  let (num, den) := ratio mantissa exponent unit
  (neighbours tie num den).map (⟨·, unit⟩)

/-- Whether a decimal reads back to the positive float `x`. -/
def Scientific.readsBack (x : Float) (s : Scientific) : Bool :=
  (nearest false s.digits s.exponent).toBits == x.toBits

/-- The first candidate that reads back on the grids of `count`, `count + 1`, … digits, `fuel` of
them; after those the nearest decimal of seventeen digits. -/
def searchGrids (tie : Tie) (x : Float) (mantissa : Nat) (exponent : Int) :
    (fuel count : Nat) → Scientific
  | 0, _ =>
    let unit := leadingPower mantissa exponent - 16
    let (num, den) := ratio mantissa exponent unit
    ⟨roundRatio tie num den, unit⟩
  | fuel + 1, count =>
    match (onGrid tie mantissa exponent count).find? (Scientific.readsBack x) with
    | some s => s
    | none => searchGrids tie x mantissa exponent fuel (count + 1)

/-- A decimal without zeros at its end. -/
def Scientific.trim (s : Scientific) : (fuel : Nat) → Scientific
  | 0 => s
  | fuel + 1 =>
    if s.digits ≠ 0 ∧ s.digits % 10 = 0 then Scientific.trim ⟨s.digits / 10, s.exponent + 1⟩ fuel
    else s

/-- The shortest decimal of the positive finite float `x`, whose value is
`mantissa * 2 ^ exponent`. -/
def shortest (tie : Tie) (x : Float) (mantissa : Nat) (exponent : Int) : Scientific :=
  (searchGrids tie x mantissa exponent 17 1).trim 17

end MotionRace.Decimal
