import MotionRace.Failure
import MotionRace.Json.Printer
import MotionRace.Json.Reader
import MotionRace.Problem

/-!
# Problems, trajectories and failures as JSON

A problem is written as an object whose first member is its kind, a trajectory as an object with its
waypoints, a failure as its name. A problem can be read back; the members may stand in any order,
and others are passed over.
-/

namespace MotionRace

open MotionRace.Geometry (Point Region)
open Json (Value)

/-- A point as an array of two numbers. -/
def pointValue (p : Point Float) : Value := .ofFloats [p.x, p.y]

/-- The point of an array of two numbers. -/
def pointOf? (v : Value) : Option (Point Float) := do
  match ← v.floats? with
  | [x, y] => return ⟨x, y⟩
  | _ => none

/-- A region as an object. -/
def regionValue (r : Region Float) : Value :=
  .object [("center", pointValue r.center), ("radius", .number r.radius)]

/-- The region of an object. -/
def regionOf? (v : Value) : Option (Region Float) := do
  let center ← pointOf? (← v.member? "center")
  let radius ← (← v.member? "radius").float?
  return { center, radius }

def ProblemKind.toJson (k : ProblemKind) : Value := .text k.name

namespace Problem

/-- A problem as an object. -/
def toJson : Problem → Value
  | .toConfiguration start goal =>
    .object [("kind", ProblemKind.toConfiguration.toJson), ("start", .ofFloats start),
      ("goal", .ofFloats goal)]
  | .toRegion start region =>
    .object [("kind", ProblemKind.toRegion.toJson), ("start", .ofFloats start),
      ("region", regionValue region)]

/-- The problem of an object. -/
def ofJson? (v : Value) : Option Problem := do
  let kind ← ProblemKind.ofName? (← (← v.member? "kind").text?)
  let start ← (← v.member? "start").floats?
  match kind with
  | .toConfiguration => return .toConfiguration start (← (← v.member? "goal").floats?)
  | .toRegion => return .toRegion start (← regionOf? (← v.member? "region"))

/-- The written form of a problem. -/
def text (p : Problem) : String := p.toJson.compact

/-- The problem that a text spells. -/
def parse? (s : String) : Option Problem := do ofJson? (← Value.parse? s)

end Problem

/-- The waypoints of a trajectory as an array. -/
def Trajectory.waypointsJson (t : Trajectory) : Value := .array (t.waypoints.map .ofFloats)

/-- A trajectory as an object. -/
def Trajectory.toJson (t : Trajectory) : Value := .object [("waypoints", t.waypointsJson)]

/-- Why a solve failed: a name, or a name with the text that goes with it. -/
def SolveFailure.toJson (e : SolveFailure) : Value :=
  match e with
  | .crashed message => .object [(e.name, .text message)]
  | .other reason => .object [(e.name, .text reason)]
  | e => .text e.name

end MotionRace
