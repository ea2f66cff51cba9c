/-!
# Joints

A revolute joint turns the link it drives; its limits are part of it.
-/

namespace MotionRace

/-- Half a turn, in radians. -/
def halfTurn : Float := 3.141592653589793

/-- One revolute joint and the link it drives. -/
structure Joint where
  name : String
  /-- The length of the link. -/
  length : Float
  lower : Float := -halfTurn
  upper : Float := halfTurn
  position : Float := 0
  deriving Repr, BEq

/-- Whether a position lies within the limits, both included. No number that is not one does. -/
def Joint.contains (j : Joint) (position : Float) : Bool :=
  j.lower ≤ position && position ≤ j.upper

/-- Whether the joint stands within its own limits. -/
def Joint.withinLimits (j : Joint) : Bool := j.contains j.position

end MotionRace
