import MotionRace.Toml.Value

/-!
# Putting tables together

A document defines its tables piecewise: by headers, by the elements of arrays of tables, and by
keys with dots. A `Node` remembers how each table came about, because that decides what may still be
added to it: a table with a header is defined once, a table that only a longer path has implied may
get its header later, and a table made by dotted keys grows by dotted keys only.
-/

namespace MotionRace.Toml

/-- How a table came about. -/
inductive Origin where
  /-- It has a header, or is an element of an array of tables. -/
  | header
  /-- A longer path runs through it. -/
  | implied
  /-- A dotted key made it. -/
  | dotted
  deriving Repr, BEq, DecidableEq

/-- An entry of a document under construction. -/
inductive Node where
  | value (v : Value)
  | table (origin : Origin) (entries : List (String × Node))
  /-- An array of tables, each with its entries. -/
  | tables (elements : List (List (String × Node)))
  deriving Inhabited

/-- The entries of a table under construction. -/
abbrev Entries := List (String × Node)

namespace Entries

/-- The first entry of a name. -/
def find? (entries : Entries) (name : String) : Option Node := entries.lookup name

/-- Put another node at a name that has one. -/
def replace (entries : Entries) (name : String) (node : Node) : Entries :=
  entries.map fun (n, old) => (n, if n = name then node else old)

/-- Take a name out. -/
def remove (entries : Entries) (name : String) : Entries := entries.filter (·.1 ≠ name)

/-- Go down a path and change the table at its end. Tables that are not there are made on the way,
and of an array of tables the last element is meant. A dotted path passes no table with a header. -/
def descend (dotted : Bool) (change : Origin → Entries → Option Entries) :
    (path : List String) → Origin → Entries → Option Entries
  | [], origin, entries => change origin entries
  | name :: path, _, entries =>
    match entries.find? name with
    | none => do
      let origin := if dotted then Origin.dotted else .implied
      let inner ← descend dotted change path origin []
      return entries ++ [(name, .table origin inner)]
    | some (.value _) => none
    | some (.table origin inner) => do
      if dotted && origin == .header then none
      let inner ← descend dotted change path origin inner
      return entries.replace name (.table origin inner)
    | some (.tables elements) => do
      let last ← elements.getLast?
      let last ← descend dotted change path .header last
      return entries.replace name (.tables (elements.dropLast ++ [last]))

/-- Give a new name its value. A dotted key ends in a table that dotted keys made, a plain one does
not. -/
def assign (path : List String) (name : String) (v : Value) (entries : Entries) : Option Entries :=
  descend true (fun origin entries =>
    if (origin == .dotted) == path.isEmpty then none
    else if (entries.find? name).isSome then none
    else some (entries ++ [(name, .value v)])) path .header entries

/-- Define the table of a header, with nothing in it but what longer paths have implied. The table
stands behind what was there before. -/
def define (path : List String) (name : String) (entries : Entries) : Option Entries :=
  descend false (fun _ entries =>
    match entries.find? name with
    | none => some (entries ++ [(name, .table .header [])])
    | some (.table .implied inner) => some (entries.remove name ++ [(name, .table .header inner)])
    | some _ => none) path .header entries

/-- Begin the next element of an array of tables. -/
def beginElement (path : List String) (name : String) (entries : Entries) : Option Entries :=
  descend false (fun _ entries =>
    match entries.find? name with
    | none => some (entries ++ [(name, .tables [[]])])
    | some (.tables elements) => some (entries.replace name (.tables (elements ++ [[]])))
    | some _ => none) path .header entries

/-- Give a new name its value in the table at a path that headers have led to. -/
def assignAt (header : List String) (path : List String) (name : String) (v : Value)
    (entries : Entries) : Option Entries :=
  descend false (fun _ entries => entries.assign path name v) header .header entries

end Entries

mutual

/-- The value of a finished entry. -/
def Node.freeze : Node → Value
  | .value v => v
  | .table _ entries => .table (freezeEntries entries)
  | .tables elements => .array (freezeElements elements)

/-- The values of finished entries. -/
def freezeEntries : List (String × Node) → List (String × Value)
  | [] => []
  | (name, node) :: rest => (name, node.freeze) :: freezeEntries rest

/-- The tables of a finished array of tables. -/
def freezeElements : List (List (String × Node)) → List Value
  | [] => []
  | entries :: rest => .table (freezeEntries entries) :: freezeElements rest

end

end MotionRace.Toml
