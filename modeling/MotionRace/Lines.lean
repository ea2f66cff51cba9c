/-!
# Lines

A text as lines. Writing ends every line; reading takes a last line without an end as well, and lets
a line end in two characters.
-/

namespace MotionRace.Lines

/-- The text of some lines, each with the end that tells it from the next. -/
def text (lines : List String) : String := String.join (lines.map (· ++ "\n"))

/-- The lines of a text, without their ends. -/
def ofText (text : String) : List String :=
  let parts := text.splitOn "\n"
  let parts := if parts.getLast? == some "" then parts.dropLast else parts
  parts.map fun line => if line.endsWith "\r" then (line.dropEnd 1).toString else line

end MotionRace.Lines
