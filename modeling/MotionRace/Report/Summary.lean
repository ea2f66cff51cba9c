import MotionRace.Race.Outcome
import MotionRace.Report.Elapsed
import MotionRace.Scenario.Basic

/-!
# Summaries for a reader

What is printed about a race that took place, and about a scenario that was only tried out. Each is
a list of lines.
-/

namespace MotionRace.Summary

/-- A horizontal line. -/
def rule : String := String.ofList (List.replicate 59 '═')

/-- A configuration with four places and a sign on every value. -/
def configuration (q : Configuration) : String :=
  "(" ++ ", ".intercalate (q.map fun x => Decimal.fixed 4 x true) ++ ")"

/-- The lines on a trajectory. -/
def trajectory (t : Trajectory) : List String :=
  ["", "Trajectory:", "  Waypoints:   " ++ toString t.length,
    "  Path length: " ++ Decimal.fixed 4 t.pathLength ++ " rad"] ++
    t.waypoints.mapIdx fun i q => "  [" ++ toString i ++ "] " ++ configuration q

/-- The lines on the trajectory of a won race. -/
def ofOutcome : Outcome Trajectory → List String
  | .succeeded _ t => trajectory t
  | _ => []

/-- The lines on a race that took place. -/
def results (outcome : Outcome Trajectory) (elapsed : Elapsed) (s : Scenario) : List String :=
  [rule, "                    RACE RESULTS", rule, "",
    "Elapsed Time: " ++ Decimal.fixed 3 elapsed.seconds ++ "s",
    "Workers:      " ++ toString s.race.workers,
    "Problem:      " ++ s.problem.kind.name,
    "Outcome:      " ++ outcome.summary] ++ ofOutcome outcome ++ [""]

/-- The lines on a scenario whose pool was built and not raced. -/
def dryRun (s : Scenario) (provisioned : Nat) : List String :=
  ["Scenario OK",
    "  World:     " ++ s.world.name ++ " (" ++ toString s.world.joints.length ++ " joints)",
    "  Obstacles: " ++ toString s.obstacles.length,
    "  Workers:   " ++ toString provisioned ++ " of " ++ toString s.race.workers ++ " provisioned",
    "  Problem:   " ++ s.problem.kind.name]

end MotionRace.Summary
