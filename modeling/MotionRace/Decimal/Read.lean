import MotionRace.Decimal.Binary

/-!
# The float nearest to a decimal

`nearest` reads `digits * 10 ^ exponent` as a float, rounding to nearest with halves to even. Sizes
far outside the range of floats are answered without forming the power of ten, so a text such as
`1e999999999` costs nothing.
-/

namespace MotionRace.Decimal

/-- The float nearest to `± digits * 10 ^ exponent`: infinite when it is too large, a zero of the
given sign when it is too small. -/
def nearest (negative : Bool) (digits : Nat) (exponent : Int) : Float :=
  let size : Int := (digits.log2 : Int) * 30103 / 100000 + exponent
  let magnitude :=
    if digits = 0 then Float.ofBits 0
    else if size > 400 then Float.ofBits 0x7FF0000000000000
    else if size < -400 then Float.ofBits 0
    else Float.ofScientific digits (decide (exponent < 0)) exponent.natAbs
  if negative then -magnitude else magnitude

end MotionRace.Decimal
