/-!
# TOML values
-/

namespace MotionRace.Toml

/-- A TOML value. The entries of a table keep the order they were written in. -/
inductive Value where
  | text (s : String)
  | integer (n : Int)
  | number (x : Float)
  | boolean (b : Bool)
  /-- A date, a time or both. -/
  | moment
  | array (elements : List Value)
  | table (entries : List (String × Value))
  deriving Repr, Inhabited

end MotionRace.Toml
