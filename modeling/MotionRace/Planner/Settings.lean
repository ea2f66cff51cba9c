import MotionRace.Arm.Obstacles
import MotionRace.Problem
import MotionRace.Random.Uniform

/-!
# Planners

A planner has settings, a stream of random words and the joint limits of the arm it was bound to.
-/

namespace MotionRace

open MotionRace.Random (WordStream)

/-- The default joint space step between collision checks. -/
def defaultResolution : Float := 0.05

/-- How a planner searches. -/
structure Settings where
  /-- Via points drawn per connection. -/
  maxAttempts : Nat := 500
  /-- The largest joint space step between collision checks along a segment. -/
  resolution : Float := defaultResolution
  /-- Goal configurations drawn for a region problem. -/
  goalSamples : Nat := 2000
  /-- The kinds of problem taken on. -/
  supports : List ProblemKind := ProblemKind.all
  deriving Repr, BEq

/-- Whether a resolution ever gets to the end of a segment. -/
def Settings.usable (resolution : Float) : Bool := resolution.isFinite && 0 < resolution

/-- Settings whose resolution ends every segment: one that would not is replaced by the default. -/
def Settings.repaired (s : Settings) : Settings :=
  if Settings.usable s.resolution then s else { s with resolution := defaultResolution }

/-- A planner that looks for a direct segment first and then for random via points. -/
structure Planner where
  settings : Settings
  stream : WordStream
  /-- The limits of the arm it was bound to, none before that. -/
  limits : List (Float × Float) := []
  deriving Repr

namespace Planner

/-- What the planner calls itself. -/
def name : String := "randomized"

/-- A planner bound to no arm yet. -/
def ofSettings (settings : Settings) (stream : WordStream) : Planner :=
  { settings := settings.repaired, stream }

/-- The planner with the stream of a seed. -/
def withSeed (p : Planner) (seed : UInt64) : Planner := { p with stream := .ofSeed seed }

/-- The planner bound to an arm. -/
def bindTo (p : Planner) (arm : Arm) (stream : WordStream) : Planner :=
  { settings := p.settings, stream, limits := arm.limits }

/-- Whether the planner takes on a problem: its kind is supported and its configurations fit the
arm. -/
def canSolve (p : Planner) (problem : Problem) : Bool :=
  p.settings.supports.contains problem.kind &&
    problem.dof == p.limits.length &&
    match problem with
    | .toConfiguration _ goal => goal.length == p.limits.length
    | .toRegion .. => true

end Planner

end MotionRace
