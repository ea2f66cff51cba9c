import MotionRace.Decimal.Read
import MotionRace.Json.Value

/-!
# Reading JSON

`parse?` reads a text in two passes: the text is cut into tokens, and the tokens are put together.
Both passes are bounded by the length of what they read. A whole number without a sign that fits a
word is read as one; every other number is read as the nearest float, and one beyond all floats is
refused.
-/

namespace MotionRace.Json

/-- A token: a mark, or a value that is neither an array nor an object. -/
inductive Token where
  | openBracket
  | closeBracket
  | openBrace
  | closeBrace
  | comma
  | colon
  | scalar (v : Value)
  deriving Repr

/-- The value of some decimal digits. -/
def numeral (digits : List Char) : Nat :=
  digits.foldl (fun n c => 10 * n + (c.toNat - '0'.toNat)) 0

/-- The value of a hexadecimal digit. -/
def hexValue? (c : Char) : Option Nat :=
  if c.isDigit then some (c.toNat - '0'.toNat)
  else if 'a' ≤ c ∧ c ≤ 'f' then some (c.toNat - 'a'.toNat + 10)
  else if 'A' ≤ c ∧ c ≤ 'F' then some (c.toNat - 'A'.toNat + 10)
  else none

/-- The character of an escape of one letter. -/
def unescape? (c : Char) : Option Char :=
  [('"', '"'), ('\\', '\\'), ('/', '/'), ('n', '\n'), ('r', '\r'), ('t', '\t'), ('b', '\x08'),
    ('f', '\x0c')].lookup c

/-- The character of four hexadecimal digits. Half of a surrogate pair is no character. -/
def unescapeHex? (a b c d : Char) : Option Char := do
  let n := 4096 * (← hexValue? a) + 256 * (← hexValue? b) + 16 * (← hexValue? c) + (← hexValue? d)
  if n.isValidChar then return Char.ofNat n else none

/-- The characters of a text behind its opening quote, and what follows its closing one. -/
def textBody? : List Char → Option (List Char × List Char)
  | '"' :: rest => some ([], rest)
  | '\\' :: 'u' :: a :: b :: c :: d :: rest => do
    let first ← unescapeHex? a b c d
    let (s, rest) ← textBody? rest
    return (first :: s, rest)
  | '\\' :: c :: rest => do
    let first ← unescape? c
    let (s, rest) ← textBody? rest
    return (first :: s, rest)
  | c :: rest =>
    if c = '\\' ∨ c.toNat < 0x20 then none
    else do
      let (s, rest) ← textBody? rest
      return (c :: s, rest)
  | [] => none

/-- The digits after a point, if there is one. -/
def fraction? : List Char → Option (List Char × List Char)
  | '.' :: rest =>
    let (digits, rest) := rest.span Char.isDigit
    if digits.isEmpty then none else some (digits, rest)
  | rest => some ([], rest)

/-- The exponent, if there is one. -/
def exponent? : List Char → Option (Option Int × List Char)
  | c :: rest =>
    if c = 'e' ∨ c = 'E' then
      let (negative, rest) : Bool × List Char :=
        match rest with
        | '-' :: rest => (true, rest)
        | '+' :: rest => (false, rest)
        | rest => (false, rest)
      let (digits, rest) := rest.span Char.isDigit
      if digits.isEmpty then none
      else
        let n : Int := numeral digits
        some (some (if negative then -n else n), rest)
    else some (none, c :: rest)
  | [] => some (none, [])

/-- A number without its sign, and what follows it. -/
def magnitude? (negative : Bool) (cs : List Char) : Option (Value × List Char) := do
  let (whole, rest) := cs.span Char.isDigit
  if whole.isEmpty || (1 < whole.length && whole.head? == some '0') then none
  let (fraction, rest) ← fraction? rest
  let (exponent, rest) ← exponent? rest
  if !negative && fraction.isEmpty && exponent.isNone && numeral whole < UInt64.size then
    return (.natural (numeral whole), rest)
  let x := Decimal.nearest negative (numeral (whole ++ fraction))
    (exponent.getD 0 - fraction.length)
  if x.isFinite then return (.number x, rest) else none

/-- A number, and what follows it. -/
def number? : List Char → Option (Value × List Char)
  | '-' :: rest => magnitude? true rest
  | cs => magnitude? false cs

/-- The first token of a text without leading blanks, and what follows it. -/
def token? : List Char → Option (Token × List Char)
  | '[' :: rest => some (.openBracket, rest)
  | ']' :: rest => some (.closeBracket, rest)
  | '\x7b' :: rest => some (.openBrace, rest)
  | '\x7d' :: rest => some (.closeBrace, rest)
  | ',' :: rest => some (.comma, rest)
  | ':' :: rest => some (.colon, rest)
  | '"' :: rest => do
    let (s, rest) ← textBody? rest
    return (.scalar (.text (String.ofList s)), rest)
  | 'n' :: 'u' :: 'l' :: 'l' :: rest => some (.scalar .null, rest)
  | 't' :: 'r' :: 'u' :: 'e' :: rest => some (.scalar (.boolean true), rest)
  | 'f' :: 'a' :: 'l' :: 's' :: 'e' :: rest => some (.scalar (.boolean false), rest)
  | cs => do
    let (v, rest) ← number? cs
    return (.scalar v, rest)

/-- What JSON takes for a blank. -/
def isBlank (c : Char) : Bool := c == ' ' || c == '\n' || c == '\r' || c == '\t'

/-- The tokens of a text, at most `fuel` of them. -/
def tokensFrom? : (fuel : Nat) → List Char → Option (List Token)
  | fuel, cs =>
    match cs.dropWhile isBlank, fuel with
    | [], _ => some []
    | _, 0 => none
    | cs, fuel + 1 => do
      let (token, rest) ← token? cs
      return token :: (← tokensFrom? fuel rest)

/-- The tokens of a text. -/
def tokens? (cs : List Char) : Option (List Token) := tokensFrom? cs.length cs

namespace Value

mutual

/-- The first value of some tokens, and what follows it. -/
def ofTokens? : (fuel : Nat) → List Token → Option (Value × List Token)
  | _, .scalar v :: rest => some (v, rest)
  | _, .openBracket :: .closeBracket :: rest => some (.array [], rest)
  | _, .openBrace :: .closeBrace :: rest => some (.object [], rest)
  | fuel + 1, .openBracket :: rest => do
    let (vs, rest) ← elementsOfTokens? fuel rest
    return (.array vs, rest)
  | fuel + 1, .openBrace :: rest => do
    let (ms, rest) ← membersOfTokens? fuel rest
    return (.object ms, rest)
  | _, _ => none

/-- The elements up to the closing bracket, at least one, and what follows it. -/
def elementsOfTokens? : (fuel : Nat) → List Token → Option (List Value × List Token)
  | 0, _ => none
  | fuel + 1, tokens => do
    let (v, rest) ← ofTokens? fuel tokens
    match rest with
    | .comma :: rest =>
      let (vs, rest) ← elementsOfTokens? fuel rest
      return (v :: vs, rest)
    | .closeBracket :: rest => return ([v], rest)
    | _ => none

/-- The members up to the closing brace, at least one, and what follows it. -/
def membersOfTokens? : (fuel : Nat) → List Token → Option (List (String × Value) × List Token)
  | fuel + 1, .scalar (.text name) :: .colon :: tokens => do
    let (v, rest) ← ofTokens? fuel tokens
    match rest with
    | .comma :: rest =>
      let (ms, rest) ← membersOfTokens? fuel rest
      return ((name, v) :: ms, rest)
    | .closeBrace :: rest => return ([(name, v)], rest)
    | _ => none
  | _, _ => none

end

/-- The value that a text spells. -/
def parse? (s : String) : Option Value := do
  let tokens ← tokens? s.toList
  match ofTokens? tokens.length tokens with
  | some (v, []) => return v
  | _ => none

end Value

end MotionRace.Json
