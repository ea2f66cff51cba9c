/-!
# JSON values

A value keeps the order of the members of an object. Numbers come in two kinds: whole numbers that
count something, and floats.
-/

namespace MotionRace.Json

/-- A JSON value. -/
inductive Value where
  | null
  | boolean (b : Bool)
  | natural (n : Nat)
  | number (x : Float)
  | text (s : String)
  | array (elements : List Value)
  | object (members : List (String × Value))
  deriving Repr, Inhabited

namespace Value

/-- The first member of a name. -/
def member? (name : String) : Value → Option Value
  | object members => members.lookup name
  | _ => none

/-- A float, from either kind of number. -/
def float? : Value → Option Float
  | natural n => some n.toFloat
  | number x => some x
  | _ => none

def text? : Value → Option String
  | text s => some s
  | _ => none

def elements? : Value → Option (List Value)
  | array elements => some elements
  | _ => none

/-- The floats of an array. -/
def floats? (v : Value) : Option (List Float) := do (← v.elements?).mapM float?

/-- An array of floats. -/
def ofFloats (xs : List Float) : Value := .array (xs.map .number)

end Value

end MotionRace.Json
