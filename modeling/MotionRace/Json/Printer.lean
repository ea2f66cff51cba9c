import MotionRace.Decimal.Text
import MotionRace.Json.Value

/-!
# Written JSON

Two spellings of a value: `compact`, without any blank, and `pretty`, with one element or member a
line, two more blanks at each level, and empty arrays and objects closed at once. In texts the
quote, the backslash and the control characters are escaped, and nothing else is.
-/

namespace MotionRace.Json

/-- The lower-case hexadecimal digit of a number below sixteen. -/
def hexDigit (n : Nat) : Char := "0123456789abcdef".toList.getD n '0'

/-- A character inside a written text. -/
def escapeChar (c : Char) : List Char :=
  if c = '"' then ['\\', '"']
  else if c = '\\' then ['\\', '\\']
  else if c = '\n' then ['\\', 'n']
  else if c = '\r' then ['\\', 'r']
  else if c = '\t' then ['\\', 't']
  else if c = '\x08' then ['\\', 'b']
  else if c = '\x0c' then ['\\', 'f']
  else if c.toNat < 0x20 then
    ['\\', 'u', '0', '0', hexDigit (c.toNat / 16), hexDigit (c.toNat % 16)]
  else [c]

/-- A text between quotes. -/
def quoted (s : String) : String :=
  String.ofList ('"' :: s.toList.flatMap escapeChar ++ ['"'])

namespace Value

mutual

/-- A value without blanks. -/
def compact : Value → String
  | null => "null"
  | boolean b => if b then "true" else "false"
  | natural n => toString n
  | number x => Decimal.json x
  | text s => quoted s
  | array elements => "[" ++ ",".intercalate (compactAll elements) ++ "]"
  | object members => "\x7b" ++ ",".intercalate (compactMembers members) ++ "\x7d"

/-- The elements of an array, each without blanks. -/
def compactAll : List Value → List String
  | [] => []
  | v :: rest => v.compact :: compactAll rest

/-- The members of an object, each without blanks. -/
def compactMembers : List (String × Value) → List String
  | [] => []
  | (name, v) :: rest => (quoted name ++ ":" ++ v.compact) :: compactMembers rest

end

/-- The start of a line at a level. -/
def margin (level : Nat) : String := "\n" ++ String.ofList (List.replicate (2 * level) ' ')

/-- Items between an opening and a closing mark, one a line, the items one level in. -/
def block (opening closing : String) (level : Nat) (items : List String) : String :=
  if items.isEmpty then opening ++ closing
  else opening ++ ",".intercalate (items.map (margin (level + 1) ++ ·)) ++ margin level ++ closing

mutual

/-- A value over several lines, for a place at a level. -/
def prettyAt (level : Nat) : Value → String
  | array elements => block "[" "]" level (prettyAll (level + 1) elements)
  | object members => block "\x7b" "\x7d" level (prettyMembers (level + 1) members)
  | null => "null"
  | boolean b => if b then "true" else "false"
  | natural n => toString n
  | number x => Decimal.json x
  | text s => quoted s

/-- The elements of an array, each over several lines. -/
def prettyAll (level : Nat) : List Value → List String
  | [] => []
  | v :: rest => v.prettyAt level :: prettyAll level rest

/-- The members of an object, each over several lines. -/
def prettyMembers (level : Nat) : List (String × Value) → List String
  | [] => []
  | (name, v) :: rest => (quoted name ++ ": " ++ v.prettyAt level) :: prettyMembers level rest

end

/-- A value over several lines. -/
def pretty (v : Value) : String := v.prettyAt 0

end Value

end MotionRace.Json
