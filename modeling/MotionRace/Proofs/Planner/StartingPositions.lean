import Mathlib.Data.List.Forall2
import MotionRace.Proofs.Planner.Courses
import MotionRace.Proofs.Planner.ReturnedPlans

/-!
# Where the scratch arm stood

Positions for fewer joints than an arm has leave the others where they were, so a check can depend
on where the arm stood before. A search is safe from that by its first check. It turns a start away
that has not one position for each joint, and otherwise puts the arm at the start; what was there
before is gone, and from here on it is the same search. Nothing is asked of the configurations that
come later.

Main statement: `solve_forgets_positions`.
-/

namespace MotionRace

open MotionRace.Random (WordStream)

/-! ## Arms in other positions -/

/-- Two joints that differ in their positions at most. -/
def Joint.Alike (one other : Joint) : Prop := other = { one with position := other.position }

/-- Two arms that differ in the positions of their joints at most. -/
structure Arm.Alike (one other : Arm) : Prop where
  name : other.name = one.name
  base : other.base = one.base
  joints : List.Forall₂ Joint.Alike one.joints other.joints

theorem Joint.Alike.trans {first second third : Joint} (one : first.Alike second)
    (other : second.Alike third) : first.Alike third := by
  unfold Alike at one other ⊢
  rw [other, one]

namespace Arm

variable {one other : Arm}

theorem Alike.refl (arm : Arm) : arm.Alike arm :=
  ⟨rfl, rfl, List.forall₂_same.mpr fun _ _ => rfl⟩

theorem Alike.trans {third : Arm} (first : one.Alike other) (second : other.Alike third) :
    one.Alike third where
  name := second.name.trans first.name
  base := second.base.trans first.base
  joints := by
    obtain ⟨-, -, first⟩ := first
    obtain ⟨-, -, second⟩ := second
    generalize one.joints = joints at first
    generalize other.joints = between at first second
    generalize third.joints = last at second
    induction first generalizing last with
    | nil =>
      cases second
      exact .nil
    | cons same _ ih =>
      cases second with
      | cons also rest => exact .cons (same.trans also) (ih _ rest)

theorem Alike.dof (alike : one.Alike other) : other.dof = one.dof :=
  alike.joints.length_eq.symm

theorem alike_place (joints : List Joint) (q : List Float) :
    List.Forall₂ Joint.Alike joints (place joints q) := by
  induction joints generalizing q with
  | nil =>
    cases q with
    | nil => exact .nil
    | cons => exact .nil
  | cons joint joints ih =>
    cases q with
    | nil => exact List.forall₂_same.mpr fun _ _ => rfl
    | cons position q => exact .cons rfl (ih q)

theorem alike_setPositions (arm : Arm) (q : Configuration) : arm.Alike (arm.setPositions q) :=
  ⟨rfl, rfl, alike_place arm.joints q⟩

theorem place_of_alike {joints others : List Joint} (alike : List.Forall₂ Joint.Alike joints others)
    {q : List Float} (fits : q.length = joints.length) : place joints q = place others q := by
  induction alike generalizing q with
  | nil => rfl
  | cons same _ ih =>
    cases q with
    | nil => cases fits
    | cons position q =>
      simp only [place]
      rw [ih (Nat.succ.inj fits), same]

/-- Positions for every joint leave no difference. -/
theorem Alike.setPositions_eq (alike : one.Alike other) {q : Configuration}
    (fits : q.length = one.dof) : one.setPositions q = other.setPositions q := by
  obtain ⟨name, base, joints⟩ := other
  obtain ⟨rfl, rfl, alike⟩ := alike
  exact congrArg (fun joints => { one with joints }) (place_of_alike alike fits)

end Arm

/-! ## What a course leaves of its arena -/

/-- What is kept of an arena, and what is counted, when so much was done on it. -/
structure Arena.Leaves (before : Arena) (asked : Nat) (events : List Course.Event) (n : Nat)
    (after : Arena) : Prop where
  arm : before.arm.Alike after.arm
  checker : after.checker =
    { before.checker with checks := before.checker.checks + events.countP Course.Event.isCheck }
  questions : n = asked + events.countP Course.Event.isQuestion

namespace Course

variable {α : Type} {limits : List (Float × Float)} {stops : Nat → Bool}

theorem leaves_nothing (arena : Arena) (asked : Nat) : arena.Leaves asked [] asked arena :=
  ⟨.refl arena.arm, rfl, rfl⟩

/-- Whatever a course does, the arm is only moved, and its checks and questions are counted. -/
theorem does_leaves (c : Course α) (asked : Nat) (arena : Arena) :
    c.Does limits stops asked arena fun events _ n after =>
      arena.Leaves asked events n after := by
  induction c generalizing asked arena with
  | done value => exact leaves_nothing arena asked
  | panics p => exact leaves_nothing arena asked
  | asks next ih =>
    apply does_asks
    refine (ih (stops asked) (asked + 1) arena).mono ?_
    intro _ n after leaves
    refine ⟨leaves.arm, leaves.checker, leaves.questions.trans ?_⟩
    simp [List.countP_cons, Event.isQuestion]
    omega
  | checks q next ih =>
    apply does_checks
    refine (ih _ asked _).mono ?_
    intro _ n after leaves
    refine ⟨(Arm.alike_setPositions arena.arm q).trans leaves.arm, leaves.checker.trans ?_,
      leaves.questions⟩
    simp [List.countP_cons, Event.isCheck]
    omega
  | looks next ih => exact does_looks (ih _ asked arena)
  | counts next ih => exact does_counts (ih _ asked arena)
  | draws next ih =>
    apply does_draws
    · intro p stream _
      exact ⟨.refl arena.arm, rfl, rfl⟩
    · intro q stream _
      refine (ih q asked { arena with stream }).mono ?_
      intro _ n after leaves
      exact ⟨leaves.arm, leaves.checker, leaves.questions⟩

/-- A search turns a start away that does not fit, and else it has the start checked. -/
theorem search_shape (s : Settings) (problem : Problem) : ∃ rest, search s problem =
    .counts fun dof =>
      if problem.start.length ≠ dof then .done (.error .invalidStart)
      else .checks problem.start rest :=
  ⟨_, rfl⟩

/-- From arms that differ in their positions, a start that fits leads to the same search. -/
theorem search_alike (s : Settings) {problem : Problem} {one other : Arm}
    {checker : ObstacleChecker} {stream : WordStream} (alike : one.Alike other)
    (fits : problem.start.length = one.dof) (asked : Nat) :
    (search s problem).perform limits ⟨one, checker, stream⟩ =
        (search s problem).perform limits ⟨other, checker, stream⟩ ∧
      (search s problem).events limits stops asked ⟨one, checker, stream⟩ =
        (search s problem).events limits stops asked ⟨other, checker, stream⟩ := by
  obtain ⟨rest, shape⟩ := search_shape s problem
  have also : problem.start.length = other.dof := fits.trans alike.dof.symm
  rw [shape]
  constructor
  · show perform limits (if _ then _ else _) _ = perform limits (if _ then _ else _) _
    rw [if_neg (not_not_intro fits), if_neg (not_not_intro also)]
    show perform limits (rest (checker.accepts _)) _ = perform limits (rest (checker.accepts _)) _
    rw [alike.setPositions_eq fits]
  · show events limits stops (if _ then _ else _) _ _ = events limits stops (if _ then _ else _) _ _
    rw [if_neg (not_not_intro fits), if_neg (not_not_intro also)]
    show _ :: events limits stops (rest (checker.accepts _)) _ _ =
      _ :: events limits stops (rest (checker.accepts _)) _ _
    rw [alike.setPositions_eq fits]

/-- A start that does not fit leaves the arena as it is. -/
theorem does_misfit (s : Settings) {problem : Problem} {asked : Nat} {arena : Arena}
    (misfit : problem.start.length ≠ arena.arm.dof) :
    (search s problem).Does limits stops asked arena fun events result n after =>
      events = [] ∧ result = .ok (.error .invalidStart) ∧ n = asked ∧ after = arena := by
  obtain ⟨rest, shape⟩ := search_shape s problem
  rw [shape]
  apply does_counts
  rw [if_pos misfit]
  exact ⟨rfl, rfl, rfl, rfl⟩

end Course

/-- On two scratch arms that differ in their positions at most, a solve does the same, one thing
after another: it asks, checks and draws the same, and comes to the same result. It leaves the same
checker and the same stream behind, and the same arm if the start has a position for each joint;
otherwise it leaves each arm as it is. It changes nothing of an arm but the positions, and it counts
its checks. -/
theorem solve_forgets_positions (p : Planner) (problem : Problem) {one other : Arm}
    (alike : one.Alike other) (checker : ObstacleChecker) (stops : Nat → Bool) (asked : Nat) :
    let solved (arm : Arm) := (p.solve problem arm checker).answers stops asked
    let events (arm : Arm) := p.events problem arm checker stops asked
    (solved one).1.1 = (solved other).1.1 ∧ (solved one).2 = (solved other).2 ∧
    events one = events other ∧
    (solved one).1.2.checker = (solved other).1.2.checker ∧
    (solved one).1.2.stream = (solved other).1.2.stream ∧
    (problem.start.length = one.dof → (solved one).1.2.arm = (solved other).1.2.arm) ∧
    (problem.start.length ≠ one.dof →
      (solved one).1.2.arm = one ∧ (solved other).1.2.arm = other) ∧
    ∀ arm : Arm, arm.Alike (solved arm).1.2.arm ∧
      (solved arm).1.2.checker =
        { checker with checks := checker.checks + (events arm).countP Course.Event.isCheck } := by
  intro solved events
  have kept (arm : Arm) : arm.Alike (solved arm).1.2.arm ∧ (solved arm).1.2.checker =
      { checker with checks := checker.checks + (events arm).countP Course.Event.isCheck } := by
    have leaves : (Course.search p.settings problem).Does p.limits stops asked
        ⟨arm, checker, p.stream⟩ _ := Course.does_leaves _ _ _
    exact ⟨leaves.solve.arm, leaves.solve.checker⟩
  by_cases fits : problem.start.length = one.dof
  · have same : _ ∧ events one = events other := Course.search_alike p.settings alike fits asked
    rw [Course.perform_search] at same
    have solves : solved one = solved other := congrArg (·.answers stops asked) same.1
    rw [solves]
    exact ⟨rfl, rfl, same.2, rfl, rfl, fun _ => rfl, fun misfit => absurd fits misfit, kept⟩
  · have turnedAway {arm : Arm} (misfit : problem.start.length ≠ arm.dof) : events arm = [] ∧
        solved arm = ((.ok (.error .invalidStart), ⟨arm, checker, p.stream⟩), asked) := by
      have does : (Course.search p.settings problem).Does p.limits stops asked
          ⟨arm, checker, p.stream⟩ _ := Course.does_misfit p.settings misfit
      obtain ⟨nothing, result, unasked, still⟩ := does.solve
      exact ⟨nothing, Prod.ext (Prod.ext result still) unasked⟩
    obtain ⟨nothing, same⟩ := turnedAway fits
    obtain ⟨also, sameToo⟩ : events other = [] ∧ _ := turnedAway (by rwa [alike.dof])
    rw [nothing, also, same, sameToo]
    exact ⟨rfl, rfl, rfl, rfl, rfl, fun whole => absurd whole fits, fun _ => ⟨rfl, rfl⟩, kept⟩

/-- An arm that stands a quarter of a radian from where the search begins. -/
theorem solve_from_a_quarter_radian :
    let other := halfRadian.setPositions [0.25]
    let solved (arm : Arm) := ((eighths.bindTo halfRadian (.ofSeed 7)).solve
      (.toConfiguration [0] [0.5]) arm { obstacles := [] }).answers (fun _ => false) 0
    halfRadian.Alike other ∧ (solved halfRadian).1.1 = (solved other).1.1 ∧
      (solved halfRadian).1.2.arm = (solved other).1.2.arm ∧
      -- The start, the goal, and five states between them.
      (solved other).1.2.checker.checks = 7 := by
  intro other solved
  have alike : halfRadian.Alike other := Arm.alike_setPositions halfRadian [0.25]
  obtain ⟨result, -, -, checker, -, arm, -⟩ := solve_forgets_positions
    (eighths.bindTo halfRadian (.ofSeed 7)) (.toConfiguration [0] [0.5]) alike { obstacles := [] }
    (fun _ => false) 0
  have checks : (solved halfRadian).1.2.checker.checks = 7 := by decide +kernel
  exact ⟨alike, result, arm rfl, checker ▸ checks⟩

end MotionRace
