import MotionRace.Arm.WellFormed

/-!
# Checking an arm against obstacles

An arm stands validly when every joint is within its limits and no link comes closer to an obstacle
than its radius and the margin. A checker counts the checks it makes.
-/

namespace MotionRace

open MotionRace.Geometry (Point Circle)

/-- A collision checker for a fixed set of circles. -/
structure ObstacleChecker where
  obstacles : List (Circle Float)
  /-- Clearance asked for around every obstacle. -/
  margin : Float := 0
  /-- The joints of the arm it is installed on. -/
  installedDof : Option Nat := none
  /-- How many checks it has made. -/
  checks : Nat := 0
  deriving Repr

namespace ObstacleChecker

/-- What the checker calls itself. -/
def name : String := "circle_obstacles"

/-- The links of an arm, as pairs of neighbouring frames. -/
def links (arm : Arm) : List (Point Float × Point Float) := arm.frames.zip arm.frames.tail

/-- Whether some link hits some obstacle. -/
def collides (checker : ObstacleChecker) (arm : Arm) : Bool :=
  (links arm).any fun (a, b) => checker.obstacles.any fun c => c.hits a b checker.margin

/-- Whether the checker accepts the arm as it stands. -/
def accepts (checker : ObstacleChecker) (arm : Arm) : Bool :=
  arm.withinLimits && !checker.collides arm

/-- Check the arm as it stands, and count the check. -/
def check (checker : ObstacleChecker) (arm : Arm) : Bool × ObstacleChecker :=
  (checker.accepts arm, { checker with checks := checker.checks + 1 })

/-- Bind the checker to an arm. An arm without joints is refused. -/
def install (checker : ObstacleChecker) (arm : Arm) : Except CloneError ObstacleChecker :=
  if arm.dof = 0 then
    .error (.backendRejected name s!"skeleton '{arm.name}' has 0 degrees of freedom")
  else .ok { checker with installedDof := some arm.dof }

end ObstacleChecker

end MotionRace
