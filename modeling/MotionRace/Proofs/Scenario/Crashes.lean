import MotionRace.Proofs.Planner.Refusals
import MotionRace.Proofs.Planner.Runs
import MotionRace.Proofs.Pool.Alone
import MotionRace.Proofs.Scenario.Provisioned

/-!
# Crashes on an accepted scenario

The check of a scenario asks for finite limits in the right order. It does not ask that a position
can be drawn from them, and from limits whose stretched width is too much for a float none can be.
A worker of an accepted scenario crashes by such a draw, and by nothing else.

Main statement: `runs_of_accepted_scenario`.
-/

namespace MotionRace

open MotionRace.Random (WordStream)

/-! ## Workers of a scenario -/

namespace Scenario

/-- A worker that was built for a scenario, whatever it has run since. -/
structure Employs (s : Scenario) (w : Worker planning) : Prop where
  world : w.world = s.arm
  solver : s.IsBound w.solver
  obstacles : ObstacleChecker.obstacles w.backend = s.obstacles
  margin : ObstacleChecker.margin w.backend = s.world.margin

/-- Whether a joint of the arm has limits that are too wide to draw from. -/
def HasWideJoint (s : Scenario) : Prop :=
  ∃ joint ∈ s.world.joints, Random.TooWide (joint.lower, joint.upper)

/-- Whether the problem of the scenario cannot be settled without a draw. -/
def NeedsDraw (s : Scenario) : Prop :=
  s.problem.NeedsDraw s.arm s.installed s.solver.resolution

variable {s : Scenario}

theorem tooWide_iff : s.arm.TooWide ↔ s.HasWideJoint := by
  simp [Arm.TooWide, Arm.limits, HasWideJoint, arm]

theorem Accepted.employs (accepted : s.Accepted) {source after : WordStream}
    {workers : List (Worker planning)} (built : s.pool source = (.ok (.ok workers), after))
    {worker : Worker planning} (listed : worker ∈ workers) : s.Employs worker := by
  obtain ⟨made, _, also, -, each⟩ := accepted.pool_eq source
  cases also.symm.trans built
  obtain ⟨id, there⟩ := List.getElem?_of_mem listed
  obtain ⟨stream, rfl, -⟩ := each id worker there
  exact ⟨rfl, ⟨accepted.settings, rfl⟩, rfl, rfl⟩

/-- What the search of a worker comes to. -/
theorem Accepted.solved (accepted : s.Accepted) {w : Worker planning} (employed : s.Employs w)
    (stops : Nat → Bool) (asked : Nat) :
    let solved := ((Planner.solve w.solver s.problem w.world w.backend).answers stops asked).1
    Refusal s.arm s.installed (Steady stops → s.NeedsDraw)
      ((∀ n, stops n = false) ∧ s.NeedsDraw) solved.1 solved.2 := by
  obtain ⟨world, ⟨settings, limits⟩, obstacles, margin⟩ := employed
  have serves : Arena.Serves ⟨w.world, w.backend, (w.solver : Planner).stream⟩ s.arm s.installed :=
    ⟨congrArg Arm.dof world, fun _ _ => by rw [world], obstacles, margin⟩
  have meets : (Planner.search w.solver s.problem).Meets stops asked _ _ :=
    Planner.search_meets limits serves s.problem
  rw [settings] at meets
  refine Refusal.mono meets id ?_
  intro forced
  exact ⟨forced.1, ⟨accepted.attempts, accepted.goalSamples⟩, forced.2⟩

/-- A search leaves a worker of the scenario behind. -/
theorem Employs.having {w : Worker planning} (employed : s.Employs w) {solved : Planner.Solved}
    (serves : solved.2.Serves s.arm s.installed) : s.Employs (w.having solved) :=
  ⟨employed.world, employed.solver, serves.obstacles, serves.margin⟩

/-- A run of a worker comes to a verdict, and what it comes to is a refused draw if it crashes. -/
theorem Accepted.run (accepted : s.Accepted) {w : Worker planning} (employed : s.Employs w)
    (stops : Nat → Bool) (shared : WordStream) :
    ∃ fuel verdict after, w.run stops s.problem fuel shared = some (.ok verdict, after, shared) ∧
      s.Employs after ∧
      (∀ message, verdict = .failure (.crashed message) →
        message = Random.rangeOverflow.message ∧ s.HasWideJoint ∧
          (Steady stops → s.NeedsDraw)) ∧
      ((∀ n, stops n = false) → s.HasWideJoint → s.NeedsDraw →
        verdict = .failure (.crashed Random.rangeOverflow.message)) := by
  have copied : Arm.copy w.world = .ok w.world := by
    rw [employed.world]
    exact Arm.copy_of_validate accepted.wellFormed
  rcases run_cases w stops s.problem shared with
    ⟨fuel, stopped, run⟩ | ⟨_, _, -, refused, -⟩ | ⟨fuel, scratch, solved, -, made, rfl, run⟩
  · refine ⟨fuel, _, w, run, employed, nofun, fun never => ?_⟩
    exact absurd stopped (ne_true_of_eq_false (never 0))
  · cases refused.symm.trans copied
  · cases made.symm.trans copied
    obtain ⟨serves, crashes, forced⟩ := accepted.solved employed stops 2
    refine ⟨fuel, _, _, run, employed.having serves, ?_, ?_⟩
    · intro message crashed
      obtain ⟨named, wide, needs⟩ := crashes message crashed
      exact ⟨named, tooWide_iff.mp wide, needs⟩
    · intro never wide needs
      rw [forced (tooWide_iff.mpr wide) ⟨never, needs⟩]
      rfl

end Scenario

/-- Every run of a worker of an accepted scenario comes to a verdict. It crashes by nothing but a
draw from the limits of a joint that are too wide, and where there is such a joint it does crash if
the problem needs a draw. -/
theorem runs_of_accepted_scenario {s : Scenario} (checked : s.check = .ok ()) :
    (∀ source workers after, s.pool source = (.ok (.ok workers), after) →
      ∀ worker ∈ workers, s.Employs worker) ∧
    (∀ worker, s.Employs worker → ∀ stops shared, ∃ fuel verdict after,
      worker.run stops s.problem fuel shared = some (.ok verdict, after, shared) ∧
        s.Employs after) ∧
    (∀ worker, s.Employs worker → ∀ stops fuel shared message after,
      worker.run stops s.problem fuel shared =
          some (.ok (.failure (.crashed message)), after) →
        message = Random.rangeOverflow.message ∧ s.HasWideJoint ∧ (Steady stops → s.NeedsDraw)) ∧
    -- A run that is never asked to stop does crash.
    (s.HasWideJoint → s.NeedsDraw → ∀ worker, s.Employs worker → ∀ shared, ∃ fuel after,
      worker.run (fun _ => false) s.problem fuel shared =
        some (.ok (.failure (.crashed Random.rangeOverflow.message)), after)) := by
  have accepted := accepted_of_check checked
  refine ⟨fun source workers after built worker listed => accepted.employs built listed, ?_, ?_, ?_⟩
  · intro worker employed stops shared
    obtain ⟨fuel, verdict, after, run, still, -⟩ := accepted.run employed stops shared
    exact ⟨fuel, verdict, after, run, still⟩
  · intro worker employed stops fuel shared message after crashed
    obtain ⟨enough, verdict, last, run, -, crashes, -⟩ := accepted.run employed stops shared
    -- Fuel decides whether a run comes to its end, and not what that is.
    have same := (Worker.runFrom_mono crashed enough).symm.trans
      (Nat.add_comm enough fuel ▸ Worker.runFrom_mono run fuel)
    obtain ⟨same, -⟩ := Prod.mk.inj (Option.some.inj same)
    exact crashes message (Except.ok.inj same).symm
  · intro wide needs worker employed shared
    obtain ⟨fuel, verdict, after, run, -, -, forced⟩ :=
      accepted.run employed (fun _ => false) shared
    rw [forced (fun _ => rfl) wide needs] at run
    exact ⟨fuel, _, run⟩

/-- A worker around an arm whose joint may turn nearly as far as there are numbers. -/
def wholeRange : Scenario where
  race := { workers := 1, seeds := [1] }
  world := { joints := [{ name := "j0", length := 1, lower := -1e308, upper := 1e308 }] }
  problem := .toConfiguration [-1e308] [1e308]

theorem check_wholeRange : wholeRange.check = .ok () := eq_ok_of_isOk (by decide +kernel)

/-- The direct move of that arm leaves the numbers at once, so it takes a draw to find another. -/
theorem needsDraw_wholeRange : wholeRange.NeedsDraw := by
  have starts : wholeRange.installed.accepts (wholeRange.arm.setPositions [-1e308]) = true := by
    decide +kernel
  have reaches : wholeRange.installed.accepts (wholeRange.arm.setPositions [1e308]) = true := by
    decide +kernel
  have leaves : wholeRange.installed.accepts (wholeRange.arm.setPositions
      (between [-1e308] [1e308] (shareOf 0 (stepCount wholeRange.solver.resolution
        (span [-1e308] [1e308]))))) = false := by
    decide +kernel
  refine ⟨(Arm.standsAt_iff rfl).mp starts, (Arm.standsAt_iff rfl).mp reaches, by decide +kernel,
    fun along => ?_⟩
  have stands := (Arm.standsAt_iff rfl).mpr (along 0 (Nat.zero_le _))
  exact absurd stands (ne_true_of_eq_false leaves)

theorem crash_on_the_whole_range :
    ∃ workers after worker, wholeRange.pool (.ofSeed 0) = (.ok (.ok workers), after) ∧
      worker ∈ workers ∧ ∃ fuel last,
        worker.run (fun _ => false) wholeRange.problem fuel after =
          some (.ok (.failure (.crashed Random.rangeOverflow.message)), last) := by
  have wide : wholeRange.HasWideJoint :=
    ⟨_, List.mem_singleton_self _, by decide +kernel, by decide +kernel⟩
  obtain ⟨employs, -, -, forced⟩ := runs_of_accepted_scenario check_wholeRange
  obtain ⟨workers, after, built, length, -⟩ :=
    (accepted_of_check check_wholeRange).pool_eq (.ofSeed 0)
  have inside : 0 < workers.length := length ▸ Nat.one_pos
  have listed := List.getElem_mem inside
  refine ⟨workers, after, workers[0], built, listed, ?_⟩
  exact forced wide needsDraw_wholeRange _ (employs _ _ _ built _ listed) after

/-- What a run that crashed said. -/
def crashOf? : Option (Except Panic (Verdict Trajectory) × Worker planning × WordStream) →
    Option String
  | some (.ok (.failure (.crashed message)), _) => some message
  | _ => none

/-- A worker of a scenario that passes the check can crash in its first run. -/
theorem exists_crash_on_an_accepted_scenario :
    wholeRange.check = .ok () ∧
    (∃ after, wholeRange.pool (.ofSeed 0) =
      (.ok (.ok [wholeRange.worker 0 (.ofSeed 1)]), after)) ∧
    crashOf? ((wholeRange.worker 0 (.ofSeed 1)).run (fun _ => false) wholeRange.problem 12
      (.ofSeed 0)) = some "Uniform::new_inclusive: range overflow" := by
  refine ⟨check_wholeRange, ?_, by decide +kernel⟩
  obtain ⟨workers, after, built, length, each⟩ :=
    (accepted_of_check check_wholeRange).pool_eq (.ofSeed 0)
  obtain ⟨worker, rfl⟩ := List.length_eq_one_iff.mp length
  obtain ⟨stream, rfl, seeded⟩ := each 0 worker rfl
  obtain rfl := seeded 1 rfl
  exact ⟨after, built⟩

end MotionRace
