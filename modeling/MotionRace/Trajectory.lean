/-!
# Trajectories

A trajectory is a piecewise straight path through joint space.
-/

namespace MotionRace

/-- A configuration of an arm: one position per joint. -/
abbrev Configuration := List Float

/-- The sum of some floats from the left. It starts at negative zero, the neutral element of float
addition, so the empty sum is `-0.0`. -/
def floatSum (values : List Float) : Float := values.foldl (· + ·) (-0.0)

/-- The straight distance of two configurations, over the coordinates they share. -/
def distance (a b : Configuration) : Float :=
  (floatSum (List.zipWith (fun x y => (x - y) * (x - y)) a b)).sqrt

/-- A piecewise straight path through joint space. -/
structure Trajectory where
  waypoints : List Configuration
  deriving Repr, BEq

namespace Trajectory

def length (t : Trajectory) : Nat := t.waypoints.length

def isEmpty (t : Trajectory) : Bool := t.waypoints.isEmpty

def start? (t : Trajectory) : Option Configuration := t.waypoints.head?

def end? (t : Trajectory) : Option Configuration := t.waypoints.getLast?

/-- The distances between neighbouring waypoints, added up. -/
def pathLength (t : Trajectory) : Float :=
  floatSum (List.zipWith distance t.waypoints t.waypoints.tail)

end Trajectory

end MotionRace
