/-!
# Floats taken apart

A finite float is a sign and an exact product `mantissa * 2 ^ exponent`. Every text of a float in
this library is computed from that product in whole-number arithmetic, so what is printed is exact
and does not depend on how the machine rounds.
-/

namespace MotionRace.Decimal

/-- What a float is: no number, an infinity, or a sign and the exact value
`mantissa * 2 ^ exponent`. -/
inductive Parts where
  | nan
  | infinite (negative : Bool)
  | finite (negative : Bool) (mantissa : Nat) (exponent : Int)
  deriving Repr, DecidableEq

/-- The parts of a 64-bit pattern: one sign bit, eleven exponent bits, 52 fraction bits. A pattern
whose exponent bits are all zero has no leading one. -/
def Parts.ofBits (bits : Nat) : Parts :=
  let negative : Bool := bits >>> 63 % 2 == 1
  let biased : Nat := bits >>> 52 % 2048
  let fraction : Nat := bits % (1 <<< 52)
  if biased = 2047 then
    if fraction = 0 then .infinite negative else .nan
  else if biased = 0 then .finite negative fraction (-1074)
  else .finite negative (1 <<< 52 + fraction) ((biased : Int) - 1075)

/-- The parts of a float. -/
def parts (x : Float) : Parts := Parts.ofBits x.toBits.toNat

/-- The value `mantissa * 2 ^ exponent` in units of `10 ^ unit`, as a numerator and a positive
denominator. -/
def ratio (mantissa : Nat) (exponent unit : Int) : Nat × Nat :=
  (mantissa * Nat.pow 2 exponent.toNat * Nat.pow 10 (-unit).toNat,
    Nat.pow 2 (-exponent).toNat * Nat.pow 10 unit.toNat)

/-- Which way an exact half goes. -/
inductive Tie where
  | up
  | toEven
  deriving Repr, DecidableEq

/-- The whole number nearest to `num / den`; an exact half goes as `tie` says. -/
def roundRatio (tie : Tie) (num den : Nat) : Nat :=
  let low := num / den
  let rest := num % den
  if 2 * rest < den then low
  else if den < 2 * rest then low + 1
  else match tie with
    | .up => low + 1
    | .toEven => low + low % 2

end MotionRace.Decimal
