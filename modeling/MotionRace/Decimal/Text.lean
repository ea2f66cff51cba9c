import MotionRace.Decimal.Shortest

/-!
# Texts of floats

Three spellings of a float:

* `plain`: the shortest digits, always positional, with no fraction on whole numbers. Messages use
  it.
* `fixed`: a given number of places, rounded half to even from the exact value. Reports use it.
* `json`: the shortest digits as a JSON number, positional for leading exponents from -5 to 15 and
  with an exponent outside; a value that is no number is `null`.
-/

namespace MotionRace.Decimal

/-- The decimal digits of a number, most significant first. -/
def digitsOf (n : Nat) : List Char := Nat.toDigits 10 n

/-- A digit string with zeros in front, at least `width` long. -/
def padLeft (width : Nat) (digits : List Char) : List Char :=
  List.replicate (width - digits.length) '0' ++ digits

/-- The integer and fraction digits of `digits * 10 ^ exponent`. A whole number has no fraction
digits. -/
def Scientific.positional (s : Scientific) : List Char × List Char :=
  let ds := digitsOf s.digits
  if 0 ≤ s.exponent then (ds ++ List.replicate s.exponent.toNat '0', [])
  else
    let places := (-s.exponent).toNat
    let ds := padLeft (places + 1) ds
    (ds.take (ds.length - places), ds.drop (ds.length - places))

/-- An integer part and a fraction, with a point only where there is a fraction. -/
def joinPoint (whole fraction : List Char) : List Char :=
  if fraction.isEmpty then whole else whole ++ '.' :: fraction

/-- The sign in front of a magnitude. -/
def signed (negative : Bool) (magnitude : List Char) : String :=
  String.ofList (if negative then '-' :: magnitude else magnitude)

/-- The shortest positional text of a float: `1`, `-0`, `0.0000001`, `NaN`, `-inf`. -/
def plain (x : Float) : String :=
  match parts x with
  | .nan => "NaN"
  | .infinite negative => signed negative "inf".toList
  | .finite negative mantissa exponent =>
    if mantissa = 0 then signed negative ['0']
    else
      let (whole, fraction) := (shortest .up x.abs mantissa exponent).positional
      signed negative (joinPoint whole fraction)

/-- The digits of a magnitude with exactly `places` digits after the point. -/
def fixedMagnitude (places mantissa : Nat) (exponent : Int) : List Char :=
  let (num, den) := ratio mantissa exponent (-places)
  let ds := padLeft (places + 1) (digitsOf (roundRatio .toEven num den))
  joinPoint (ds.take (ds.length - places)) (ds.drop (ds.length - places))

/-- A float with `places` digits after the point, rounded half to even; with `plus`, a `+` on every
number that has no minus sign. The sign of a rounded-away negative value stays: `-0.0000`. -/
def fixed (places : Nat) (x : Float) (plus : Bool := false) : String :=
  let mark (negative : Bool) (magnitude : List Char) : String :=
    if plus && !negative then String.ofList ('+' :: magnitude) else signed negative magnitude
  match parts x with
  | .nan => "NaN"
  | .infinite negative => mark negative "inf".toList
  | .finite negative mantissa exponent => mark negative (fixedMagnitude places mantissa exponent)

/-- The mantissa of an exponent form: one digit, then the others behind a point. -/
def exponentMantissa : List Char → List Char
  | [] => []
  | d :: rest => joinPoint [d] rest

/-- A positive decimal as a JSON number. -/
def Scientific.json (s : Scientific) : List Char :=
  let ds := digitsOf s.digits
  let leading := s.exponent + ds.length - 1
  if -5 ≤ leading ∧ leading < 16 then
    let (whole, fraction) := s.positional
    joinPoint whole (if fraction.isEmpty then ['0'] else fraction)
  else
    exponentMantissa ds ++ 'e' :: (if leading < 0 then '-' else '+') :: digitsOf leading.natAbs

/-- The JSON text of a float: the shortest digits that read back, `.0` on whole numbers, `null` for
what JSON cannot write. -/
def json (x : Float) : String :=
  match parts x with
  | .nan => "null"
  | .infinite _ => "null"
  | .finite negative mantissa exponent =>
    if mantissa = 0 then signed negative "0.0".toList
    else signed negative (shortest .toEven x.abs mantissa exponent).json

end MotionRace.Decimal
