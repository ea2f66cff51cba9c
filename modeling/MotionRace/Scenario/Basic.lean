import MotionRace.Planner.Domain
import MotionRace.Race.Machine

/-!
# Scenarios

A scenario says all there is to a race: the pool, the arm and what surrounds it, the planners, the
problem, and where the result goes.
-/

namespace MotionRace

open MotionRace.Geometry (Point Circle)

/-- The pool and its race. -/
structure RaceSettings where
  /-- The number of workers. -/
  workers : Nat
  /-- The seeds of the workers, one each; none to take them from `baseSeed`. -/
  seeds : List UInt64 := []
  /-- The seed of the first worker, where `seeds` has none. -/
  baseSeed : Option UInt64 := none
  /-- How long the race waits for one report, in microseconds. -/
  pollMicros : Nat := 200
  /-- How long a race waits for workers of an earlier one, in milliseconds. -/
  busyMillis : Nat := 100
  /-- The file that the runs are written into. -/
  timingLog : Option String := none
  deriving Repr, BEq

namespace RaceSettings

/-- The seeds of the pool: the given ones, else the base seed and the words after it, of which the
largest is followed by zero. With neither there are none. -/
def resolvedSeeds (r : RaceSettings) : List UInt64 :=
  if !r.seeds.isEmpty then r.seeds
  else match r.baseSeed with
    | some base => (List.range r.workers).map fun i => base + i.toUInt64
    | none => []

/-- How long the race waits. -/
def waits (r : RaceSettings) : Waits where
  poll := r.pollMicros * 1000
  busy := r.busyMillis * 1000000

end RaceSettings

/-- The arm and the clearance it needs. -/
structure WorldSettings where
  name : String := "arm"
  base : Point Float := ⟨0, 0⟩
  margin : Float := 0
  joints : List Joint
  deriving Repr, BEq

/-- Where the result goes. -/
structure OutputSettings where
  /-- Print a report instead of a summary. -/
  json : Bool := false
  /-- A file that gets the report too. -/
  jsonOutput : Option String := none
  deriving Repr, BEq

/-- A race with all that belongs to it. -/
structure Scenario where
  race : RaceSettings
  world : WorldSettings
  obstacles : List (Circle Float) := []
  solver : Settings := {}
  problem : Problem
  output : OutputSettings := {}
  deriving Repr, BEq

namespace Scenario

/-- The arm. -/
def arm (s : Scenario) : Arm :=
  { name := s.world.name, base := s.world.base, joints := s.world.joints }

/-- The checkers of the pool, one for each worker. -/
def checkers (s : Scenario) : List ObstacleChecker :=
  List.replicate s.race.workers { obstacles := s.obstacles, margin := s.world.margin }

/-- The planner that the workers' planners are copies of. -/
def template (s : Scenario) : Planner := .ofSettings s.solver (.ofSeed 0)

/-- The pool of a scenario; planners without a seed draw on the given source. -/
def pool (s : Scenario) (source : Random.WordStream) :
    Except Panic (Except ConfigurationError (List (Worker planning))) × Random.WordStream :=
  provision (D := planning) s.template s.arm s.checkers s.race.resolvedSeeds source

end Scenario

end MotionRace
