import MotionRace.Decimal.Text
import MotionRace.Scenario.Basic

/-!
# Checking a scenario

A scenario is checked part by part: the pool, the arm, the obstacles, the planners, the problem. The
first fault found is reported.
-/

namespace MotionRace

open MotionRace.Geometry (Point Circle Region)

/-- What can be wrong with a problem. -/
inductive ProblemFault where
  | startLength (values joints : Nat)
  | startNotFinite
  | goalLength (values joints : Nat)
  | goalNotFinite
  | centerNotFinite
  | radius (radius : Float)
  deriving Repr

def ProblemFault.message : ProblemFault → String
  | .startLength values joints => s!"start has {values} values but the arm has {joints} joints"
  | .startNotFinite => "start must be finite"
  | .goalLength values joints => s!"goal has {values} values but the arm has {joints} joints"
  | .goalNotFinite => "goal must be finite"
  | .centerNotFinite => "region center must be finite"
  | .radius r => "region radius must be positive, got " ++ Decimal.plain r

/-- What can be wrong with a scenario. -/
inductive Fault where
  | noWorkers
  | seedCount (seeds workers : Nat)
  | noJoints (world : String)
  | baseNotFinite
  | margin (margin : Float)
  | reusedName (index : Nat) (name : String)
  | length (joint : String) (length : Float)
  | limits (joint : String) (lower upper : Float)
  | position (joint : String) (position : Float)
  | obstacleCenter (index : Nat)
  | obstacleRadius (index : Nat) (radius : Float)
  | resolution (resolution : Float)
  | noAttempts
  | noGoalSamples
  | noKinds
  | problem (fault : ProblemFault)
  deriving Repr

namespace Fault

/-- The wording of a fault; that of a fault of the problem says where it is. -/
def message : Fault → String
  | noWorkers => "workers must be at least 1"
  | seedCount seeds workers => s!"seeds has {seeds} entries but workers is {workers}"
  | noJoints world => s!"world '{world}' must have at least one joint"
  | baseNotFinite => "world base must be finite"
  | margin m => "margin must be a non-negative number, got " ++ Decimal.plain m
  | reusedName index name => s!"joint {index} reuses name '{name}'"
  | length joint l => s!"joint '{joint}': length must be positive, got " ++ Decimal.plain l
  | limits joint lower upper =>
    s!"joint '{joint}': invalid limits [" ++ Decimal.plain lower ++ ", " ++ Decimal.plain upper ++
      "]"
  | position joint q =>
    s!"joint '{joint}': initial position " ++ Decimal.plain q ++ " is outside its limits"
  | obstacleCenter index => s!"obstacle {index}: center must be finite"
  | obstacleRadius index radius =>
    s!"obstacle {index}: radius must be positive, got " ++ Decimal.plain radius
  | resolution r => "solver resolution must be positive, got " ++ Decimal.plain r
  | noAttempts => "solver max_attempts must be at least 1"
  | noGoalSamples => "solver goal_samples must be at least 1"
  | noKinds => "solver must support at least one problem kind"
  | problem _ => "Invalid [problem] section"

/-- The messages of a fault, the outermost first. -/
def chain : Fault → List String
  | problem fault => [message (problem fault), fault.message]
  | fault => [fault.message]

end Fault

/-- Fail unless a condition holds. -/
def require {ε : Type} (holds : Bool) (fault : ε) : Except ε Unit :=
  if holds then .ok () else .error fault

/-- Whether a float is a positive number. -/
def positive (x : Float) : Bool := x.isFinite && 0 < x

/-- The pool has workers, and its seeds pair with them if there are any. -/
def RaceSettings.check (r : RaceSettings) : Except Fault Unit := do
  require (r.workers ≠ 0) .noWorkers
  require (r.seeds.isEmpty || r.seeds.length == r.workers) (.seedCount r.seeds.length r.workers)

/-- A joint has a length and limits, and stands within them. -/
def Joint.check (j : Joint) : Except Fault Unit := do
  require (positive j.length) (.length j.name j.length)
  require (j.lower.isFinite && j.upper.isFinite && !(j.upper < j.lower))
    (.limits j.name j.lower j.upper)
  require j.withinLimits (.position j.name j.position)

/-- The joints from number `index` on are well made, and no name is used twice; `seen` were used
before. -/
def checkJoints : (index : Nat) → (seen : List String) → List Joint → Except Fault Unit
  | _, _, [] => .ok ()
  | index, seen, j :: rest => do
    require (!seen.contains j.name) (.reusedName index j.name)
    j.check
    checkJoints (index + 1) (j.name :: seen) rest

/-- The arm has joints, a base and a margin, and its joints are well made. -/
def WorldSettings.check (w : WorldSettings) : Except Fault Unit := do
  require (!w.joints.isEmpty) (.noJoints w.name)
  require (w.base.x.isFinite && w.base.y.isFinite) .baseNotFinite
  require (w.margin.isFinite && !(w.margin < 0)) (.margin w.margin)
  checkJoints 0 [] w.joints

/-- The obstacles from number `index` on are circles. -/
def checkObstacles : (index : Nat) → List (Circle Float) → Except Fault Unit
  | _, [] => .ok ()
  | index, c :: rest => do
    require (c.x.isFinite && c.y.isFinite) (.obstacleCenter index)
    require (positive c.radius) (.obstacleRadius index c.radius)
    checkObstacles (index + 1) rest

/-- The planners can search, and take on something. -/
def Settings.check (s : Settings) : Except Fault Unit := do
  require (positive s.resolution) (.resolution s.resolution)
  require (s.maxAttempts ≠ 0) .noAttempts
  require (s.goalSamples ≠ 0) .noGoalSamples
  require (!s.supports.isEmpty) .noKinds

/-- The region is a disc. -/
def checkRegion (r : Region Float) : Except ProblemFault Unit := do
  require (r.center.x.isFinite && r.center.y.isFinite) .centerNotFinite
  require (positive r.radius) (.radius r.radius)

/-- The problem fits an arm of so many joints, and all of its numbers are numbers. -/
def Problem.check (p : Problem) (dof : Nat) : Except ProblemFault Unit := do
  require (p.start.length == dof) (.startLength p.start.length dof)
  require (p.start.all Float.isFinite) .startNotFinite
  match p with
  | .toConfiguration _ goal =>
    require (goal.length == dof) (.goalLength goal.length dof)
    require (goal.all Float.isFinite) .goalNotFinite
  | .toRegion _ region => checkRegion region

/-- Every part of the scenario is as it should be. -/
def Scenario.check (s : Scenario) : Except Fault Unit := do
  s.race.check
  s.world.check
  checkObstacles 0 s.obstacles
  s.solver.check
  (s.problem.check s.world.joints.length).mapError .problem

end MotionRace
