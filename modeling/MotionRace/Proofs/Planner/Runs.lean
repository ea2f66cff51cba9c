import MotionRace.Planner.Domain
import MotionRace.Pool.Worker

/-!
# Runs of planners

A run of a worker that drives a planner is over in one of three ways: it was cancelled before it
began, the world of the worker cannot be copied, or the search on the copy was answered to its end.
Either way it is over, and what the workers of a pool share is as before.
-/

namespace MotionRace

open MotionRace.Random (WordStream)

/-- A worker with what a search has left behind: the stream of its planner, and the checker. -/
def Worker.having (w : Worker planning) (solved : Planner.Solved) : Worker planning :=
  { w with
    solver := { (w.solver : Planner) with stream := solved.2.stream }
    backend := solved.2.checker }

/-- A worker in the middle of a solve answers what is left of the search. -/
theorem runFrom_solving (stops : Nat → Bool) (problem : Problem) (w : Worker planning)
    (search : Polling Arena Planner.Solved) (rest : Rest) (n : Nat) (shared : WordStream) :
    ∃ fuel, Worker.runFrom (D := planning) stops problem fuel n w
        (.solving ⟨w.solver, search⟩ rest) shared =
      some (.ok (.ofSolve (search.answers stops n).1.1), w.having (search.answers stops n).1,
        shared) := by
  induction search generalizing rest n with
  | done solved => exact ⟨2, rfl⟩
  | ask _ next ih =>
    obtain ⟨fuel, same⟩ := ih (stops n) .ready (n + 1)
    exact ⟨fuel + 1, same⟩

/-- A run is cancelled at once, or it has no scratch copy, or it answers its search. -/
theorem run_cases (w : Worker planning) (stops : Nat → Bool) (problem : Problem)
    (shared : WordStream) :
    (∃ fuel, stops 0 = true ∧ w.run stops problem fuel shared =
        some (.ok (.failure .cancelled), w, shared)) ∨
      (∃ fuel e, stops 0 = false ∧ Arm.copy w.world = .error e ∧
        w.run stops problem fuel shared =
          some (.ok (.failure (.other e.message)), w, shared)) ∨
      ∃ fuel scratch solved, stops 0 = false ∧ Arm.copy w.world = .ok scratch ∧
        ((Planner.solve w.solver problem scratch w.backend).answers stops 2).1 = solved ∧
        w.run stops problem fuel shared =
          some (.ok (.ofSolve solved.1), w.having solved, shared) := by
  cases first : stops 0 with
  | true =>
    refine .inl ⟨2, rfl, ?_⟩
    simp only [Worker.run, Worker.runFrom, Worker.RunPhase.ending?, Worker.step, first, if_true]
  | false =>
    cases copied : Arm.copy w.world with
    | error e =>
      have scratch : planning.copy w.world shared = (.ok (.error e), shared) :=
        congrArg (fun made => (Except.ok made, shared)) copied
      refine .inr (.inl ⟨3, e, rfl, rfl, ?_⟩)
      simp only [Worker.run, Worker.runFrom, Worker.RunPhase.ending?, Worker.step, first,
        Bool.false_eq_true, if_false, scratch]
    | ok copy =>
      obtain ⟨fuel, same⟩ := runFrom_solving stops problem w
        (Planner.solve w.solver problem copy w.backend) .ready 2 shared
      have scratch : planning.copy w.world shared = (.ok (.ok copy), shared) :=
        congrArg (fun made => (Except.ok made, shared)) copied
      refine .inr (.inr ⟨fuel + 2, copy, _, rfl, rfl, rfl, ?_⟩)
      simp only [Worker.run, Worker.runFrom, Worker.RunPhase.ending?, Worker.step, first,
        Bool.false_eq_true, if_false, scratch]
      exact same

end MotionRace
