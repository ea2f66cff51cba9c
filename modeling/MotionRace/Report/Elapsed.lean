import MotionRace.Decimal.Text

/-!
# Durations

A duration is a whole number of nanoseconds. Reports show it as microseconds, cut to a word of 64
bits, and as a text in the unit that fits those microseconds: `0µs`, `250µs`, `1.500ms`, `2.500s`,
`1.50m`.
-/

namespace MotionRace

/-- How long something took. -/
structure Elapsed where
  nanos : Nat
  deriving Repr, BEq, DecidableEq

namespace Elapsed

/-- A duration of whole seconds and nanoseconds. -/
def ofParts (secs nanos : Nat) : Elapsed := ⟨secs * 1000000000 + nanos⟩

/-- The whole microseconds, as a word: what does not fit is cut off. -/
def micros (d : Elapsed) : UInt64 := (d.nanos / 1000).toUInt64

/-- The duration in seconds, as the sum of two floats: the whole seconds and the rest. -/
def seconds (d : Elapsed) : Float :=
  (d.nanos / 1000000000).toUInt64.toFloat + (d.nanos % 1000000000).toUInt64.toFloat / 1000000000

/-- The duration for a reader. -/
def human (d : Elapsed) : String :=
  let micros := d.micros
  if micros < 1000 then toString micros ++ "µs"
  else if micros < 1000000 then Decimal.fixed 3 (micros.toFloat / 1000) ++ "ms"
  else if micros < 60000000 then Decimal.fixed 3 (micros.toFloat / 1000000) ++ "s"
  else Decimal.fixed 2 (micros.toFloat / 60000000) ++ "m"

end Elapsed

end MotionRace
