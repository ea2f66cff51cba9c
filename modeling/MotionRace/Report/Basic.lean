import MotionRace.Race.Outcome
import MotionRace.Report.Elapsed
import MotionRace.Written

/-!
# Race reports

What is told of a finished race, as JSON. The winner and its trajectory are members only of the
report of a race that has them.
-/

namespace MotionRace

open Json (Value)

/-- A report on a race. -/
structure Report where
  /-- When the report was made. -/
  timestamp : String
  outcome : Outcome Trajectory
  problem : ProblemKind
  /-- The size of the pool. -/
  workers : Nat
  elapsed : Elapsed

namespace Report

/-- A duration as an object. -/
def elapsedJson (d : Elapsed) : Value :=
  .object [("micros", .natural d.micros.toNat), ("human", .text d.human)]

/-- The members that only a won race has: the id of the winner. -/
def winnerMembers : Outcome Trajectory → List (String × Value)
  | .succeeded worker _ => [("winner", .natural worker)]
  | _ => []

/-- The members that only a won race has: the trajectory and its length. -/
def trajectoryMembers : Outcome Trajectory → List (String × Value)
  | .succeeded _ t =>
    [("trajectory",
      .object [("waypoints", t.waypointsJson), ("path_length", .number t.pathLength)])]
  | _ => []

/-- A report as an object. -/
def toJson (r : Report) : Value :=
  .object ([("timestamp", .text r.timestamp), ("outcome", .text r.outcome.label),
    ("problem", r.problem.toJson), ("workers", .natural r.workers)] ++ winnerMembers r.outcome ++
    [("elapsed", elapsedJson r.elapsed)] ++ trajectoryMembers r.outcome)

/-- The written report, on one line or on several. -/
def text (r : Report) (pretty : Bool) : String :=
  if pretty then r.toJson.pretty else r.toJson.compact

end Report

end MotionRace
