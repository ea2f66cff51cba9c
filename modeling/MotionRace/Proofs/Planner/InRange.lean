import MotionRace.Proofs.Planner.Refusals
import MotionRace.Proofs.Planner.Runs
import MotionRace.Proofs.Pool.Isolation

/-!
# Searches stay in range

A segment is read along its first configuration, at positions that its second configuration has to
have too. No worker ever reads past an end: a start is turned away unless it has a position for each
joint, a goal unless it has as many, and what is drawn has one for each pair of limits, which are
those of the arm that the worker was built around. This needs no look at the problem beforehand, so
it also holds of problems that a planner would refuse.

What is left to take a search down is a draw from limits that are too wide.

Main statement: `runs_stay_in_range`.
-/

namespace MotionRace

open MotionRace.Random (WordStream)

/-! ## Searches that are turned away -/

section Search

variable {arm : Arm} {checker : ObstacleChecker} {p : Planner} {stops : Nat → Bool} {asked : Nat}
  {arena : Arena}

/-- A start that does not fit is turned away before anything is asked. -/
theorem search_meets_misfit (serves : arena.Serves arm checker) {problem : Problem}
    (misfit : problem.start.length ≠ arm.dof) :
    (p.search problem).Meets stops asked arena fun result _ _ =>
      result = .ok (.error .invalidStart) := by
  apply Search.meets_dof
  rw [serves.dof, if_pos misfit]
  exact Search.meets_pure rfl

/-- A goal that does not fit is turned away once the start has been checked. -/
theorem search_meets_misfit_goal (serves : arena.Serves arm checker) {start goal : Configuration}
    (begins : arm.StandsAt checker start) (misfit : goal.length ≠ arm.dof) :
    (p.search (.toConfiguration start goal)).Meets stops asked arena fun result _ _ =>
      result = .ok (.error .invalidGoal) := by
  apply Search.meets_dof
  rw [serves.dof]
  simp only [Problem.start, begins.1, ne_eq, not_true_eq_false, if_false]
  refine meets_check serves begins.1 ?_
  intro valid after _ _ stands
  obtain rfl := stands.mpr begins
  simp only [Bool.not_true, Bool.false_eq_true, if_false, misfit, not_false_eq_true, if_true]
  exact Search.meets_pure rfl

end Search

/-- Reading past an end and a refused range do not say the same: they differ in the first letter. -/
theorem message_outOfRange_ne (length index : Nat) :
    (Panic.outOfRange length index).message ≠ Random.rangeOverflow.message := by
  intro same
  have first : "index out of bounds: the len is ".toList =
      'i' :: "ndex out of bounds: the len is ".toList := by decide +kernel
  have head : (Panic.outOfRange length index).message.toList.head? = some 'i' := by
    change (toString "index out of bounds: the len is " ++ _ ++ _ ++ _).toList.head? = _
    simp only [String.toList_append, List.append_assoc, toString, first, List.cons_append,
      List.head?_cons]
  have other : Random.rangeOverflow.message.toList.head? = some 'U' := by decide +kernel
  rw [same, other] at head
  cases head

/-! ## Workers -/

namespace Worker

/-- The worker with its planner on another stream. -/
def onStream (w : Worker planning) (stream : WordStream) : Worker planning :=
  { w with solver := { (w.solver : Planner) with stream } }

/-- A worker that was built around an arm, whatever its stream, and whatever it has run since. -/
structure Drives (w : Worker planning) (arm : Arm) (checker : ObstacleChecker) : Prop where
  world : w.world = arm
  limits : Planner.limits w.solver = arm.limits
  obstacles : ObstacleChecker.obstacles w.backend = checker.obstacles
  margin : ObstacleChecker.margin w.backend = checker.margin

variable {arm : Arm} {checker : ObstacleChecker} {w : Worker planning}

theorem drives_of_build {id : Nat} {template : Planner} {seed : Option UInt64}
    {source after : WordStream}
    (built : build (D := planning) id template arm checker seed source = (.ok w, after)) :
    w.Drives arm checker := by
  unfold build at built
  cases installed : planning.install checker arm with
  | error e =>
    rw [installed] at built
    cases built
  | ok ready =>
    rw [installed] at built
    have kept : ready = { checker with installedDof := some arm.dof } := by
      change ObstacleChecker.install checker arm = .ok ready at installed
      unfold ObstacleChecker.install at installed
      split at installed
      · cases installed
      · exact (Except.ok.inj installed).symm
    subst kept
    cases seed with
    | none =>
      cases built
      exact ⟨rfl, rfl, rfl, rfl⟩
    | some seed =>
      cases built
      exact ⟨rfl, rfl, rfl, rfl⟩

theorem Drives.onStream (drives : w.Drives arm checker) (stream : WordStream) :
    (w.onStream stream).Drives arm checker :=
  ⟨drives.world, drives.limits, drives.obstacles, drives.margin⟩

/-- What a run on a problem comes to. Only a refused draw makes it a crash, and what does not fit is
turned away by name. -/
structure Answers (arm : Arm) (checker : ObstacleChecker) (unstopped : Prop) (problem : Problem)
    (verdict : Verdict Trajectory) : Prop where
  crashes : ∀ message, verdict = .failure (.crashed message) →
    message = Random.rangeOverflow.message ∧ arm.TooWide
  start : unstopped → arm.validate = .ok () → problem.start.length ≠ arm.dof →
    verdict = .failure .invalidStart
  goal : unstopped → arm.validate = .ok () → ∀ start goal, problem = .toConfiguration start goal →
    arm.StandsAt checker start → goal.length ≠ arm.dof → verdict = .failure .invalidGoal

/-- Every run comes to a verdict, and leaves the worker on its arm. -/
theorem Drives.run (drives : w.Drives arm checker) (stops : Nat → Bool) (problem : Problem)
    (shared : WordStream) :
    ∃ fuel verdict after, w.run stops problem fuel shared = some (.ok verdict, after, shared) ∧
      after.Drives arm checker ∧ Answers arm checker (stops 0 = false) problem verdict := by
  rcases run_cases w stops problem shared with
    ⟨fuel, stopped, run⟩ | ⟨fuel, e, -, refused, run⟩ | ⟨fuel, scratch, solved, -, copied, rfl, run⟩
  · have never {goal : Prop} (unstopped : stops 0 = false) : goal :=
      absurd stopped (ne_true_of_eq_false unstopped)
    exact ⟨fuel, _, w, run, drives, fun _ crashed => (by cases crashed), never, never⟩
  · have never {goal : Prop} (valid : arm.validate = .ok ()) : goal := by
      rw [drives.world, Arm.copy, valid] at refused
      cases refused
    refine ⟨fuel, _, w, run, drives, fun _ crashed => ?_, fun _ => never, fun _ => never⟩
    cases crashed
  · obtain rfl := (Arm.eq_of_copy copied).trans drives.world
    have serves : Arena.Serves ⟨scratch, w.backend, Planner.stream w.solver⟩ scratch checker :=
      ⟨rfl, fun _ _ => rfl, drives.obstacles, drives.margin⟩
    have meets : (Planner.search w.solver problem).Meets stops 2 _ _ :=
      Planner.search_meets drives.limits serves problem
    have refusal : Refusal scratch checker _ _ _ _ := meets
    refine ⟨fuel, _, _, run, ?_, ?_⟩
    · exact ⟨drives.world, drives.limits, refusal.serves.obstacles, refusal.serves.margin⟩
    · refine ⟨fun message crashed => ?_, fun _ _ misfit => ?_, ?_⟩
      · obtain ⟨named, wide, -⟩ := refusal.crashes message crashed
        exact ⟨named, wide⟩
      · exact congrArg Verdict.ofSolve (search_meets_misfit serves misfit)
      · intro _ _ start goal same begins misfit
        subst same
        exact congrArg Verdict.ofSolve (search_meets_misfit_goal serves begins misfit)

/-- A worker is run one time after another on its arm. -/
theorem Drives.ran (drives : w.Drives arm checker) {stops : Nat → Bool} {problem : Problem}
    {shared : WordStream} :
    (∃ r, w.Ran stops problem shared r) ∧ ∀ r, w.Ran stops problem shared r →
      r.worker.Drives arm checker ∧
        ∃ verdict, r.ending = .ok verdict ∧
          Answers arm checker (stops 0 = false) problem verdict := by
  obtain ⟨fuel, verdict, after, run, still, answers⟩ := drives.run stops problem shared
  have ran : w.Ran stops problem shared
      ⟨.ok verdict, after, shared, w.runCalls problem (stops 0) shared⟩ :=
    ran_iff_run.mpr ⟨⟨fuel, run⟩, rfl⟩
  refine ⟨⟨_, ran⟩, ?_⟩
  intro r other
  obtain rfl := other.unique ran
  exact ⟨still, verdict, rfl, answers⟩

theorem Drives.serves {last : Worker planning} {runs : List (Run planning)}
    (serves : w.Serves runs last) (drives : w.Drives arm checker) : last.Drives arm checker := by
  induction serves with
  | idle w => exact drives
  | run first _ ih => exact ih (drives.ran.2 _ first).1

end Worker

/-- A worker that was built around any arm, put on any stream and run any number of times comes to a
verdict on every problem, whatever it is answered. It never reads a configuration past its end: all
that can take its solve down is a draw for a joint with limits that are too wide. A start that has
not one position for each joint is invalid, and so is a goal from a valid start. -/
theorem runs_stay_in_range {id : Nat} {template : Planner} {arm : Arm} {checker : ObstacleChecker}
    {seed : Option UInt64} {source after : WordStream} {w : Worker planning}
    (built : Worker.build (D := planning) id template arm checker seed source = (.ok w, after)) :
    ∀ stream runs last, (w.onStream stream).Serves runs last →
      ∀ (stops : Nat → Bool) (problem : Problem) shared,
      (∃ r, last.Ran stops problem shared r) ∧
      ∀ r, last.Ran stops problem shared r → ∃ verdict, r.ending = .ok verdict ∧
        (∀ length index,
          verdict ≠ .failure (.crashed (Panic.outOfRange length index).message)) ∧
        (∀ message, verdict = .failure (.crashed message) →
          message = Random.rangeOverflow.message ∧
            ∃ joint ∈ arm.joints, joint.lower < joint.upper ∧
              ((joint.upper - joint.lower) / Random.largestShare).isFinite = false) ∧
        (arm.validate = .ok () → stops 0 = false →
          (problem.start.length ≠ arm.dof → verdict = .failure .invalidStart) ∧
          ∀ start goal, problem = .toConfiguration start goal → arm.StandsAt checker start →
            goal.length ≠ arm.dof → verdict = .failure .invalidGoal) := by
  intro stream runs last serves stops problem shared
  have drives := Worker.Drives.serves serves ((Worker.drives_of_build built).onStream stream)
  refine ⟨drives.ran.1, ?_⟩
  intro r ran
  obtain ⟨-, verdict, ended, answers⟩ := drives.ran.2 r ran
  refine ⟨verdict, ended, ?_, ?_, ?_⟩
  · intro length index crashed
    exact message_outOfRange_ne length index (answers.crashes _ crashed).1
  · intro message crashed
    obtain ⟨named, limit, listed, choice, wide⟩ := answers.crashes message crashed
    obtain ⟨joint, there, rfl⟩ := List.mem_map.mp listed
    exact ⟨named, joint, there, choice, wide⟩
  · intro valid unstopped
    exact ⟨answers.start unstopped valid, answers.goal unstopped valid⟩

/-- A goal with a position too many, and then a start with one. -/
theorem misfits_for_half_a_radian :
    ∃ w after first second,
      Worker.build (D := planning) 0 eighths halfRadian { obstacles := [] } (some 7) (.ofSeed 0) =
        (.ok w, after) ∧
      w.Ran (fun _ => false) (.toConfiguration [0] [0, 0.5] : Problem) after first ∧
      first.ending = .ok (.failure .invalidGoal) ∧
      first.worker.Ran (fun _ => false) (.toConfiguration [0, 0] [0.5] : Problem) first.shared
        second ∧
      second.ending = .ok (.failure .invalidStart) := by
  have sound : halfRadian.defect? = none := Option.isNone_iff_eq_none.mp (by decide +kernel)
  have valid : halfRadian.validate = .ok () := by rw [Arm.validate, sound]
  have begins : halfRadian.StandsAt { obstacles := [] } [0] :=
    (Arm.standsAt_iff rfl).mp (by decide +kernel)
  have built : Worker.build (D := planning) 0 eighths halfRadian { obstacles := [] } (some 7)
    (.ofSeed 0) = (.ok _, _) := rfl
  have stay := runs_stay_in_range built
  obtain ⟨⟨first, ran⟩, each⟩ :=
    stay (.ofSeed 7) [] _ (.idle _) (fun _ => false) (.toConfiguration [0] [0, 0.5]) (.ofSeed 0)
  obtain ⟨_, ended, -, -, turnedAway⟩ := each first ran
  obtain ⟨⟨second, later⟩, each⟩ := stay (.ofSeed 7) [first] _ (.run ran (.idle _))
    (fun _ => false) (.toConfiguration [0, 0] [0.5]) first.shared
  obtain ⟨_, alsoEnded, -, -, alsoTurnedAway⟩ := each second later
  refine ⟨_, _, first, second, built, ran, ?_, later, ?_⟩
  · rw [ended, (turnedAway valid rfl).2 _ _ rfl begins nofun]
  · rw [alsoEnded, (alsoTurnedAway valid rfl).1 nofun]

end MotionRace
