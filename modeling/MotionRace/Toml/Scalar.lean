import MotionRace.Decimal.Read
import MotionRace.Toml.Value

/-!
# Words of TOML

Texts, numbers, truth values, dates and times. Each reader takes the characters from some point on
and answers what it read with the characters that follow, or nothing. A reader takes as much as
belongs to the word; that nothing foreign follows the word is for its caller to see.
-/

namespace MotionRace.Toml

/-- A reader of one kind of word. -/
abbrev Reader (α : Type) := List Char → Option (α × List Char)

/-- A blank inside a line. -/
def isBlank (c : Char) : Bool := c == ' ' || c == '\t'

/-- What may stand in a comment or between quotes: the tab, and all but the control characters. -/
def isPlain (c : Char) : Bool := c == '\t' || (0x20 ≤ c.toNat && c.toNat ≠ 0x7F)

/-- Leave blanks out. -/
def skipBlanks (cs : List Char) : List Char := cs.dropWhile isBlank

/-- The end of a line, in either spelling. -/
def newline? : List Char → Option (List Char)
  | '\n' :: rest => some rest
  | '\r' :: '\n' :: rest => some rest
  | _ => none

/-! ## Texts -/

/-- The value of a hexadecimal digit. -/
def hexValue? (c : Char) : Option Nat :=
  if c.isDigit then some (c.toNat - '0'.toNat)
  else if 'a' ≤ c ∧ c ≤ 'f' then some (c.toNat - 'a'.toNat + 10)
  else if 'A' ≤ c ∧ c ≤ 'F' then some (c.toNat - 'A'.toNat + 10)
  else none

/-- The character of some hexadecimal digits. Surrogates are no characters. -/
def hexChar? (digits : List Char) : Option Char := do
  let n := (← digits.mapM hexValue?).foldl (fun n d => 16 * n + d) 0
  if n.isValidChar then return Char.ofNat n else none

/-- The character of an escape of one letter. -/
def escape? (c : Char) : Option Char :=
  [('b', '\x08'), ('t', '\t'), ('n', '\n'), ('f', '\x0c'), ('r', '\r'), ('"', '"'),
    ('\\', '\\')].lookup c

/-- The character that so many hexadecimal digits stand for. -/
def hexEscape? (count : Nat) (cs : List Char) : Option (Char × List Char) := do
  let digits := cs.take count
  if digits.length = count then return (← hexChar? digits, cs.drop count) else none

/-- What an escape stands for, behind its backslash. -/
def escaped? : Reader Char
  | 'u' :: rest => hexEscape? 4 rest
  | 'U' :: rest => hexEscape? 8 rest
  | c :: rest => do return (← escape? c, rest)
  | [] => none

/-- A text in double quotes, behind the opening one. Each character costs one unit of fuel. -/
def basicBody? : (fuel : Nat) → Reader (List Char)
  | 0, _ => none
  | _, [] => none
  | _, '"' :: rest => some ([], rest)
  | fuel + 1, '\\' :: rest => do
    let (c, rest) ← escaped? rest
    let (s, rest) ← basicBody? fuel rest
    return (c :: s, rest)
  | fuel + 1, c :: rest =>
    if isPlain c then do
      let (s, rest) ← basicBody? fuel rest
      return (c :: s, rest)
    else none

/-- A text in single quotes, behind the opening one. -/
def literalBody? : Reader (List Char)
  | [] => none
  | '\'' :: rest => some ([], rest)
  | c :: rest =>
    if isPlain c then do
      let (s, rest) ← literalBody? rest
      return (c :: s, rest)
    else none

/-- Three quotes close a text of several lines. Up to two more just before them belong to the text;
the answer is how many do, and what follows. -/
def closing? (quote : Char) (cs : List Char) : Option (List Char × List Char) :=
  let run := (cs.takeWhile (· == quote)).length
  if run < 3 then none
  else
    let kept := min (run - 3) 2
    some (List.replicate kept quote, cs.drop (kept + 3))

/-- Leave blanks and line ends out. -/
def skipLines : List Char → List Char
  | '\n' :: rest => skipLines rest
  | '\r' :: '\n' :: rest => skipLines rest
  | c :: rest => if isBlank c then skipLines rest else c :: rest
  | [] => []

/-- A backslash at the end of a line joins it to the next character that is neither a blank nor the
end of a line. -/
def joinedLine? (cs : List Char) : Option (List Char) := do
  return skipLines (← newline? (skipBlanks cs))

/-- A text of several lines behind its opening quotes; with `escapes`, backslashes mean something.
Each character costs one unit of fuel. -/
def linesBody? (quote : Char) (escapes : Bool) : (fuel : Nat) → Reader (List Char)
  | 0, _ => none
  | _, [] => none
  | fuel + 1, c :: rest =>
    let goOn (s : List Char) (rest : List Char) : Option (List Char × List Char) := do
      let (t, rest) ← linesBody? quote escapes fuel rest
      return (s ++ t, rest)
    if c = quote then
      match closing? quote (c :: rest) with
      | some found => some found
      | none => goOn [c] rest
    else if escapes ∧ c = '\\' then
      match joinedLine? rest with
      | some rest => goOn [] rest
      | none => do
        let (e, rest) ← escaped? rest
        goOn [e] rest
    else match newline? (c :: rest) with
      | some rest => goOn ['\n'] rest
      | none => if isPlain c then goOn [c] rest else none

/-- A line end right behind the opening quotes is no part of the text. -/
def skipNewline (cs : List Char) : List Char := (newline? cs).getD cs

/-- A text, in any of its four spellings. -/
def text? : Reader String
  | '"' :: '"' :: '"' :: rest => do
    let (s, rest) ← linesBody? '"' true (rest.length + 1) (skipNewline rest)
    return (String.ofList s, rest)
  | '\'' :: '\'' :: '\'' :: rest => do
    let (s, rest) ← linesBody? '\'' false (rest.length + 1) (skipNewline rest)
    return (String.ofList s, rest)
  | '"' :: rest => do
    let (s, rest) ← basicBody? (rest.length + 1) rest
    return (String.ofList s, rest)
  | '\'' :: rest => do
    let (s, rest) ← literalBody? rest
    return (String.ofList s, rest)
  | _ => none

/-! ## Numbers -/

/-- Digits, with single underscores between them, which are left out. The first character is a
digit or there are none. -/
def digitRun (isDigit : Char → Bool) : List Char → List Char × List Char
  | [] => ([], [])
  | c :: rest =>
    if isDigit c then
      let (digits, rest) := more rest
      (c :: digits, rest)
    else ([], c :: rest)
where
  /-- The digits behind a digit. -/
  more : List Char → List Char × List Char
    | '_' :: c :: rest =>
      if isDigit c then
        let (digits, rest) := more rest
        (c :: digits, rest)
      else ([], '_' :: c :: rest)
    | c :: rest =>
      if isDigit c then
        let (digits, rest) := more rest
        (c :: digits, rest)
      else ([], c :: rest)
    | [] => ([], [])

/-- A sign, if there is one: whether it is a minus. -/
def sign : List Char → Bool × List Char
  | '-' :: rest => (true, rest)
  | '+' :: rest => (false, rest)
  | rest => (false, rest)

/-- Whole digits without a zero in front. -/
def wholeDigits? : Reader (List Char)
  | '0' :: rest => some (['0'], rest)
  | cs =>
    let (digits, rest) := digitRun Char.isDigit cs
    if digits.isEmpty then none else some (digits, rest)

/-- The value of digits in a base. -/
def valueOf (base : Nat) (digits : List Char) : Nat :=
  digits.foldl (fun n c => base * n + (hexValue? c).getD 0) 0

/-- The integers of TOML are signed words of 64 bits. -/
def inWord (n : Int) : Bool := -0x8000000000000000 ≤ n && n < 0x8000000000000000

/-- An unsigned integer in another base, behind the mark of the base. -/
def basedInteger? (base : Nat) (cs : List Char) : Option (Int × List Char) :=
  let (digits, rest) := digitRun (fun c => (hexValue? c).any (· < base)) cs
  let n : Int := valueOf base digits
  if digits.isEmpty || !inWord n then none else some (n, rest)

/-- An integer. -/
def integer? : Reader Int
  | '0' :: 'x' :: rest => basedInteger? 16 rest
  | '0' :: 'o' :: rest => basedInteger? 8 rest
  | '0' :: 'b' :: rest => basedInteger? 2 rest
  | cs => do
    let (negative, rest) := sign cs
    let (digits, rest) ← wholeDigits? rest
    let magnitude : Int := valueOf 10 digits
    let n := if negative then -magnitude else magnitude
    if inWord n then return (n, rest) else none

/-- The digits behind a point. -/
def fraction? : Reader (List Char)
  | '.' :: rest =>
    let (digits, rest) := digitRun Char.isDigit rest
    if digits.isEmpty then none else some (digits, rest)
  | _ => none

/-- The exponent behind its mark; zeros may stand in front. -/
def exponent? : Reader Int
  | c :: rest =>
    if c = 'e' ∨ c = 'E' then
      let (negative, rest) := sign rest
      let (digits, rest) := digitRun Char.isDigit rest
      let n : Int := valueOf 10 digits
      if digits.isEmpty then none else some (if negative then -n else n, rest)
    else none
  | [] => none

/-- A word that stands for one of the special floats. -/
def specialFloat? (cs : List Char) : Option (Float × List Char) :=
  let (negative, rest) := sign cs
  match rest with
  | 'i' :: 'n' :: 'f' :: rest => some (if negative then -1 / 0 else 1 / 0, rest)
  | 'n' :: 'a' :: 'n' :: rest => some (0 / 0, rest)
  | _ => none

/-- A float: whole digits with a fraction, an exponent or both. One too large is refused, unless it
is negative: that one is minus infinity. -/
def float? (cs : List Char) : Option (Float × List Char) := do
  let (negative, rest) := sign cs
  let (whole, rest) ← wholeDigits? rest
  let (fraction, exponent, rest) ←
    match fraction? rest with
    | some (fraction, rest) =>
      match exponent? rest with
      | some (n, rest) => some (fraction, n, rest)
      | none => some (fraction, 0, rest)
    | none => do
      let (n, rest) ← exponent? rest
      some ([], n, rest)
  let x := Decimal.nearest negative (valueOf 10 (whole ++ fraction)) (exponent - fraction.length)
  if x == 1 / 0 then none else return (x, rest)

/-! ## Dates and times -/

/-- So many digits. -/
def digitsOf? (count : Nat) (cs : List Char) : Option (Nat × List Char) :=
  let digits := cs.take count
  if digits.length = count ∧ digits.all Char.isDigit then some (valueOf 10 digits, cs.drop count)
  else none

/-- Two digits between two bounds. -/
def pair? (low high : Nat) (cs : List Char) : Option (Nat × List Char) := do
  let (n, rest) ← digitsOf? 2 cs
  if low ≤ n ∧ n ≤ high then return (n, rest) else none

/-- One character. -/
def mark? (mark : Char) : List Char → Option (List Char)
  | c :: rest => if c = mark then some rest else none
  | [] => none

/-- The number of days of a month. -/
def monthLength (year month : Nat) : Nat :=
  if month = 2 then
    if year % 4 = 0 ∧ (year % 100 ≠ 0 ∨ year % 400 = 0) then 29 else 28
  else if [4, 6, 9, 11].contains month then 30
  else 31

/-- Pass over a date. -/
def date? (cs : List Char) : Option (List Char) := do
  let (year, rest) ← digitsOf? 4 cs
  let (month, rest) ← pair? 1 12 (← mark? '-' rest)
  let (_, rest) ← pair? 1 (monthLength year month) (← mark? '-' rest)
  return rest

/-- Pass over a time of the day, with or without parts of a second. -/
def time? (cs : List Char) : Option (List Char) := do
  let (_, rest) ← pair? 0 23 cs
  let (_, rest) ← pair? 0 59 (← mark? ':' rest)
  let (_, rest) ← pair? 0 60 (← mark? ':' rest)
  match rest with
  | '.' :: parts =>
    if (parts.head?).any Char.isDigit then return parts.dropWhile Char.isDigit else none
  | _ => return rest

/-- Pass over the offset of a time. -/
def offset? : List Char → Option (List Char)
  | c :: rest =>
    if c = 'Z' ∨ c = 'z' then some rest
    else if c = '+' ∨ c = '-' then do
      let (_, rest) ← pair? 0 23 rest
      let (_, rest) ← pair? 0 59 (← mark? ':' rest)
      return rest
    else none
  | [] => none

/-- Pass over what follows a date: a time, and perhaps its offset. -/
def timeOfDate? : List Char → Option (List Char)
  | c :: rest =>
    if c = 'T' ∨ c = 't' ∨ c = ' ' then do
      let rest ← time? rest
      return (offset? rest).getD rest
    else none
  | [] => none

/-- Pass over a date, a time or both. -/
def moment? (cs : List Char) : Option (List Char) :=
  match date? cs with
  | some rest => some ((timeOfDate? rest).getD rest)
  | none => time? cs

/-! ## All words -/

/-- A word that is no text. -/
def bare? (cs : List Char) : Option (Value × List Char) :=
  match cs with
  | 't' :: 'r' :: 'u' :: 'e' :: rest => some (.boolean true, rest)
  | 'f' :: 'a' :: 'l' :: 's' :: 'e' :: rest => some (.boolean false, rest)
  | _ =>
    match moment? cs with
    | some rest => some (.moment, rest)
    | none =>
      match (float? cs).or (specialFloat? cs) with
      | some (x, rest) => some (.number x, rest)
      | none => do
        let (n, rest) ← integer? cs
        return (.integer n, rest)

/-- A value that is neither an array nor a table. -/
def scalar? (cs : List Char) : Option (Value × List Char) :=
  match text? cs with
  | some (s, rest) => some (.text s, rest)
  | none => if cs.head? = some '"' ∨ cs.head? = some '\'' then none else bare? cs

end MotionRace.Toml
