import MotionRace.Planner.Search
import MotionRace.Pool.Domain

/-!
# Racing planners

The domain of planners on planar arms. A session is a search with its next question left open, so a
race can put other workers' steps between any two questions. Planners that are given no seed take
their stream from a source that all of them share.
-/

namespace MotionRace

open MotionRace.Random (WordStream)

namespace Planner

/-- A planner bound to an arm: on the stream of its seed, or on a fresh stream from the shared
source. -/
def bindSeeded (p : Planner) (arm : Arm) (seed : Option UInt64) (source : WordStream) :
    Planner × WordStream :=
  match seed with
  | some seed => (p.bindTo arm (.ofSeed seed), source)
  | none =>
    let (word, source) := source.next
    (p.bindTo arm (.ofSeed word), source)

/-- A solve under way: the planner, and what is left of its search. -/
structure Session where
  planner : Planner
  rest : Polling Arena Solved

/-- The session after one answer. A finished search hands its stream back to the planner, also when
a panic ended it. -/
def Session.advance (s : Session) (stopped : Bool) :
    Move Session Planner ObstacleChecker Trajectory :=
  match s.rest with
  | .done (result, arena) => .ends result { s.planner with stream := arena.stream } arena.checker
  | .ask _ next => .goesOn { s with rest := next stopped } .ready

end Planner

/-- Planners that race on planar arms. -/
def planning : Domain WordStream where
  World := Arm
  Backend := ObstacleChecker
  Solver := Planner
  Problem := Problem
  Artifact := Trajectory
  Session := Planner.Session
  copy arm source := (.ok arm.copy, source)
  install := ObstacleChecker.install
  bindSolver := Planner.bindSeeded
  asks p problem source := (if p.canSolve problem then .accepts else .refuses, source)
  start p problem arm checker source := (⟨p, p.solve problem arm checker⟩, source)
  advance session stopped source := (session.advance stopped, source)

end MotionRace
