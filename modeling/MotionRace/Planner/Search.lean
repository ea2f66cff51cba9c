import MotionRace.Planner.Polling
import MotionRace.Planner.Settings

/-!
# Searching for a path

The direct segment from start to goal is tried first, then random via points, and the first path
whose segments are valid at the resolution is taken. A region is reached by drawing configurations
until the end effector lies in it. Before every check along a segment, and before every draw, the
search asks whether it should stop.
-/

namespace MotionRace

open MotionRace.Geometry (Region)
open MotionRace.Random (WordStream)

/-- What a search works on: the scratch arm, the checker and the stream. -/
structure Arena where
  arm : Arm
  checker : ObstacleChecker
  stream : WordStream
  deriving Repr

/-- A search: it asks whether to stop, it may panic, and it leaves its arena behind either way. Its
arena is also what it has in hand when it asks. -/
abbrev Search := ExceptT Panic (StateT Arena (Polling Arena))

namespace Search

/-- Ask whether to stop. -/
def shouldStop : Search Bool := fun arena => do
  let stopped ← Polling.shouldStop arena
  return (.ok stopped, arena)

/-- Give up in the middle. -/
def panic {α : Type} (p : Panic) : Search α := fun arena => .done (.error p, arena)

/-- Put the arm into a configuration and check it. -/
def stateValid (q : Configuration) : Search Bool := fun arena =>
  let arm := arena.arm.setPositions q
  let (valid, checker) := arena.checker.check arm
  .done (.ok valid, { arena with arm, checker })

/-- Where the end effector is. -/
def endEffector : Search (Geometry.Point Float) := fun arena =>
  .done (.ok arena.arm.endEffector, arena)

/-- The number of joints of the arm. -/
def dof : Search Nat := fun arena => .done (.ok arena.arm.dof, arena)

/-- Draw a configuration within the limits. -/
def sample (limits : List (Float × Float)) : Search Configuration := fun arena =>
  let (drawn, stream) := Random.drawAll limits arena.stream
  .done (drawn, { arena with stream })

end Search

/-- The larger of two floats; a value that is no number is passed over. -/
def larger (a b : Float) : Float := if b.isNaN then a else if a < b then b else a

/-- The largest joint difference of two configurations, over the joints they share. -/
def span (a b : Configuration) : Float :=
  (List.zipWith (fun x y => (x - y).abs) a b).foldl larger 0

/-- The least whole number that is not below `x`, kept between zero and the largest word; zero for
what is no number. -/
def ceilWord (x : Float) : Nat :=
  let floor := x.toUInt64
  if floor.toFloat < x then min (floor.toNat + 1) (UInt64.size - 1) else floor.toNat

/-- The number of steps a segment of the given span is checked in, at least one. -/
def stepCount (resolution span : Float) : Nat := max 1 (ceilWord (span / resolution))

/-- The configuration a share `t` of the way from `a` to `b`. The goal has to have at least as many
joints as the start. -/
def interpolate (a b : Configuration) (t : Float) : Except Panic Configuration :=
  if a.length ≤ b.length then .ok (List.zipWith (fun x y => x + (y - x) * t) a b)
  else .error (.outOfRange b.length b.length)

/-- The share of the way after `i` of `steps` steps. -/
def shareOf (i steps : Nat) : Float := i.toUInt64.toFloat / steps.toUInt64.toFloat

namespace Planner

/-- Check the states number `i`, `i + 1`, … of a segment cut into `steps` steps, `left` of them. A
request to stop makes the segment invalid. -/
def checkStates (a b : Configuration) (steps : Nat) : (left i : Nat) → Search Bool
  | 0, _ => return true
  | left + 1, i => do
    if ← Search.shouldStop then return false
    match interpolate a b (shareOf i steps) with
    | .error p => Search.panic p
    | .ok q =>
      if ← Search.stateValid q then checkStates a b steps left (i + 1) else return false

/-- Check every state between two configurations at the resolution, both ends included. -/
def segmentValid (resolution : Float) (a b : Configuration) : Search Bool :=
  let steps := stepCount resolution (span a b)
  checkStates a b steps (steps + 1) 0

/-- Try `left` random via points between start and goal. -/
def tryVias (p : Planner) (start goal : Configuration) :
    (left : Nat) → Search (Except SolveFailure Trajectory)
  | 0 => do
    if ← Search.shouldStop then return .error .cancelled
    return .error .exhausted
  | left + 1 => do
    if ← Search.shouldStop then return .error .cancelled
    let via ← Search.sample p.limits
    if ← Search.stateValid via then
      if ← segmentValid p.settings.resolution start via then
        if ← segmentValid p.settings.resolution via goal then
          return .ok ⟨[start, via, goal]⟩
    tryVias p start goal left

/-- Join start and goal: directly if that segment is valid, else by a via point. -/
def connect (p : Planner) (start goal : Configuration) :
    Search (Except SolveFailure Trajectory) := do
  if ← segmentValid p.settings.resolution start goal then return .ok ⟨[start, goal]⟩
  if ← Search.shouldStop then return .error .cancelled
  tryVias p start goal p.settings.maxAttempts

/-- Draw `left` goal candidates and join the start to the first that allows it. `found` tells
whether some candidate was valid and in the region before. -/
def reachRegion (p : Planner) (start : Configuration) (region : Region Float) :
    (left : Nat) → (found : Bool) → Search (Except SolveFailure Trajectory)
  | 0, found => return .error (if found then .exhausted else .invalidGoal)
  | left + 1, found => do
    if ← Search.shouldStop then return .error .cancelled
    let q ← Search.sample p.limits
    if ← Search.stateValid q then
      if region.contains (← Search.endEffector) then
        match ← connect p start q with
        | .error .exhausted => reachRegion p start region left true
        | result => return result
      else reachRegion p start region left found
    else reachRegion p start region left found

/-- Solve a problem on the arm of the arena. -/
def search (p : Planner) (problem : Problem) : Search (Except SolveFailure Trajectory) := do
  let start := problem.start
  let dof ← Search.dof
  if start.length ≠ dof then return .error .invalidStart
  if !(← Search.stateValid start) then return .error .invalidStart
  match problem with
  | .toConfiguration _ goal =>
    if goal.length ≠ start.length then return .error .invalidGoal
    if !(← Search.stateValid goal) then return .error .invalidGoal
    if distance start goal == 0 then return .ok ⟨[start]⟩
    connect p start goal
  | .toRegion _ region =>
    if region.contains (← Search.endEffector) then return .ok ⟨[start]⟩
    reachRegion p start region p.settings.goalSamples false

/-- What a search leaves behind: its result, or the panic that ended it, and its arena. -/
abbrev Solved := Except Panic (Except SolveFailure Trajectory) × Arena

/-- A solve of a problem on a scratch arm, with its questions left open. -/
def solve (p : Planner) (problem : Problem) (arm : Arm) (checker : ObstacleChecker) :
    Polling Arena Solved :=
  p.search problem ⟨arm, checker, p.stream⟩

end Planner

end MotionRace
