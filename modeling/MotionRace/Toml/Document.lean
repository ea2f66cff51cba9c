import MotionRace.Toml.Scalar
import MotionRace.Toml.Tables

/-!
# TOML documents

A text is read as a list of statements, one per line or so, and the statements are carried out one
after another. `parse?` answers the entries of the document, or nothing if the text is no TOML.
-/

namespace MotionRace.Toml

/-- What a line of a document says. -/
inductive Statement where
  /-- A header: the entries that follow belong to the table of the path and the name. -/
  | header (path : List String) (name : String)
  /-- A header of an element of an array of tables. -/
  | element (path : List String) (name : String)
  /-- A name, perhaps behind a path of dotted keys, and its value. -/
  | entry (path : List String) (name : String) (v : Value)
  deriving Repr

/-! ## Blanks, comments and keys -/

/-- Pass over a comment, up to the end of its line. -/
def comment? : List Char → Option (List Char)
  | '#' :: rest => some (rest.dropWhile isPlain)
  | _ => none

/-- Pass over the rest of a line: blanks, a comment, and the line end or the end of the text. -/
def lineEnd? (cs : List Char) : Option (List Char) :=
  let cs := skipBlanks cs
  match (comment? cs).getD cs with
  | [] => some []
  | rest => newline? rest

/-- Pass over blanks, line ends and comments. A comment has to end in a line end. -/
def skipTrivia : (fuel : Nat) → List Char → List Char
  | 0, cs => cs
  | fuel + 1, cs =>
    let cs := skipLines cs
    match (comment? cs).bind newline? with
    | some rest => skipTrivia fuel rest
    | none => cs

/-- What a bare key is made of. -/
def isBare (c : Char) : Bool := c.isAlphanum || c == '_' || c == '-'

/-- A key without dots, bare or quoted; texts of several lines are no keys. -/
def simpleKey? : Reader String
  | '"' :: rest => do
    let (s, rest) ← basicBody? (rest.length + 1) rest
    return (String.ofList s, rest)
  | '\'' :: rest => do
    let (s, rest) ← literalBody? rest
    return (String.ofList s, rest)
  | cs =>
    let (word, rest) := cs.span isBare
    if word.isEmpty then none else some (String.ofList word, rest)

/-- The deepest that keys and values may be nested. -/
def depthLimit : Nat := 80

/-- A key, with dots or without: the names before its last one, and the last one. Blanks around it
belong to it. There is fuel for one name fewer than the depth limit. -/
def key? : (fuel : Nat) → List Char → Option (List String × String × List Char)
  | 0, _ => none
  | fuel + 1, cs => do
    let (name, rest) ← simpleKey? (skipBlanks cs)
    match skipBlanks rest with
    | '.' :: rest =>
      let (path, last, rest) ← key? fuel rest
      return (name :: path, last, rest)
    | rest => return ([], name, rest)

/-! ## Values -/

mutual

/-- A value, in which arrays and inline tables may be nested `depth` deep. -/
def value? : (fuel depth : Nat) → Reader Value
  | 0, _, _ => none
  | fuel + 1, depth, '[' :: rest =>
    match depth with
    | 0 => none
    | depth + 1 => do
      let (vs, rest) ← elements? fuel depth rest
      return (.array vs, rest)
  | fuel + 1, depth, '\x7b' :: rest =>
    match depth with
    | 0 => none
    | depth + 1 =>
      match skipBlanks rest with
      | '\x7d' :: rest => some (.table [], rest)
      | rest => do
        let (entries, rest) ← inline? fuel depth [] rest
        return (.table (freezeEntries entries), rest)
  | _, _, cs => scalar? cs

/-- The elements of an array up to its closing bracket. A comma may follow the last one. -/
def elements? : (fuel depth : Nat) → Reader (List Value)
  | 0, _, _ => none
  | fuel + 1, depth, cs =>
    match skipTrivia cs.length cs with
    | ']' :: rest => some ([], rest)
    | cs => do
      let (v, rest) ← value? fuel depth cs
      match skipTrivia rest.length rest with
      | ',' :: rest =>
        let (vs, rest) ← elements? fuel depth rest
        return (v :: vs, rest)
      | ']' :: rest => return ([v], rest)
      | _ => none

/-- The entries of an inline table, at least one, up to its closing brace. No comma follows the last
one, and the table stands in one line. -/
def inline? : (fuel depth : Nat) → Entries → Reader Entries
  | 0, _, _, _ => none
  | fuel + 1, depth, entries, cs => do
    let (path, name, rest) ← key? (depthLimit - 1) cs
    let rest ← mark? '=' rest
    let (v, rest) ← value? fuel depth (skipBlanks rest)
    let entries ← entries.assign path name v
    match skipBlanks rest with
    | ',' :: rest => inline? fuel depth entries rest
    | '\x7d' :: rest => return (entries, rest)
    | _ => none

end

/-! ## Statements -/

/-- A header in brackets, behind them, with the rest of its line. -/
def header? (cs : List Char) : Option (Statement × List Char) := do
  match cs with
  | '[' :: rest =>
    let (path, name, rest) ← key? (depthLimit - 1) rest
    let rest ← mark? ']' (← mark? ']' rest)
    return (.element path name, ← lineEnd? rest)
  | rest =>
    let (path, name, rest) ← key? (depthLimit - 1) rest
    return (.header path name, ← lineEnd? (← mark? ']' rest))

/-- A key with its value, and the rest of its line. -/
def entry? (cs : List Char) : Option (Statement × List Char) := do
  let (path, name, rest) ← key? (depthLimit - 1) cs
  let rest := skipBlanks (← mark? '=' rest)
  let (v, rest) ← value? (rest.length + 1) (depthLimit - 1) rest
  return (.entry path name v, ← lineEnd? rest)

/-- The statements of a text. -/
def statements? : (fuel : Nat) → List Char → Option (List Statement)
  | fuel, cs =>
    match skipLines cs, fuel with
    | [], _ => some []
    | _, 0 => none
    | '#' :: rest, fuel + 1 => do statements? fuel (← lineEnd? ('#' :: rest))
    | '[' :: rest, fuel + 1 => do
      let (s, rest) ← header? rest
      return s :: (← statements? fuel rest)
    | cs, fuel + 1 => do
      let (s, rest) ← entry? cs
      return s :: (← statements? fuel rest)

/-- A document under construction: its entries, and the path of the table that the next ones belong
to. -/
structure Draft where
  current : List String := []
  entries : Entries := []

/-- Carry out a statement. -/
def Draft.add (d : Draft) : Statement → Option Draft
  | .header path name => do return ⟨path ++ [name], ← d.entries.define path name⟩
  | .element path name => do return ⟨path ++ [name], ← d.entries.beginElement path name⟩
  | .entry path name v => do return { d with entries := ← d.entries.assignAt d.current path name v }

/-- The text without a byte order mark in front. -/
def withoutMark : List Char → List Char
  | '\uFEFF' :: rest => rest
  | cs => cs

/-- The entries of the document that a text spells. -/
def parse? (s : String) : Option (List (String × Value)) := do
  let cs := withoutMark s.toList
  let statements ← statements? cs.length cs
  let draft ← statements.foldlM Draft.add {}
  return freezeEntries draft.entries

end MotionRace.Toml
