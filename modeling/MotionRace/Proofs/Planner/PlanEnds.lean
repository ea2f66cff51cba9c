import MotionRace.Proofs.Binary64.Distances
import MotionRace.Proofs.Planner.FreeSpace

/-!
# Where a plan begins and ends

A plan between two configurations begins with the start and ends with the goal, as they were given.
The one exception is the plan of a single waypoint, the start. It is returned where the computed
distance of start and goal is zero, which is meant for a start that is the goal. A computed distance
is also zero where the squares of all differences are too small for a float, so a plan can end short
of a goal that is very near.

Main statement: `plan_joins_its_ends`.
-/

namespace MotionRace

open MotionRace.Binary64

/-! ## Configurations value by value -/

/-- Whether two configurations are equal value by value, as floats compare. -/
def Configuration.Same (a b : Configuration) : Prop :=
  List.Forall₂ (fun x y => (x == y) = true) a b

instance (a b : Configuration) : Decidable (a.Same b) :=
  inferInstanceAs (Decidable (List.Forall₂ _ _ _))

theorem same_self {q : Configuration} (finite : ∀ x ∈ q, x.isFinite = true) : q.Same q := by
  refine List.forall₂_same.mpr ?_
  intro x listed
  exact (beq_iff_number_eq (finite x listed) (finite x listed)).mpr rfl

/-- Within finite limits a position is a number. -/
theorem Arm.Contains.finite {arm : Arm} {q : Configuration} (contains : arm.Contains q)
    (bounded : ∀ joint ∈ arm.joints, joint.Bounded) : ∀ x ∈ q, x.isFinite = true := by
  unfold Contains at contains
  generalize arm.joints = joints at bounded contains
  induction contains with
  | nil => exact nofun
  | @cons joint x joints q inside _ ih =>
    obtain ⟨⟨low, high⟩, others⟩ := List.forall_mem_cons.mp bounded
    simp only [Joint.contains, Bool.and_eq_true, decide_eq_true_eq] at inside
    exact List.forall_mem_cons.mpr
      ⟨isFinite_of_between low high inside.1 inside.2, ih others⟩

theorem Arm.StandsAt.finite {arm : Arm} {checker : ObstacleChecker} {q : Configuration}
    (stands : arm.StandsAt checker q) (bounded : ∀ joint ∈ arm.joints, joint.Bounded) :
    ∀ x ∈ q, x.isFinite = true :=
  Contains.finite (forall₂_contains_iff.mpr ⟨stands.1, stands.2.1⟩) bounded

/-! ## Searches between two configurations -/

/-- Whether a plan leads from a start to a goal. -/
structure Trajectory.Joins (t : Trajectory) (start goal : Configuration) : Prop where
  first : t.start? = some start
  last : t.end? = some goal
  two_le : 2 ≤ t.waypoints.length

namespace Search

variable {α β : Type} {x : Search α} {f : α → Search β} {arena : Arena} {last : β → Arena → Prop}

/-- What holds of the rest of a search, whatever its first part comes to. -/
theorem yields_after (rest : ∀ a after, (f a).Yields after last) : (x >>= f).Yields arena last :=
  yields_bind fun _ _ a after _ => rest a after

end Search

namespace Planner

variable {p : Planner} {start goal : Configuration} {arena : Arena}

/-- What a search for a connection has come to: a plan that it found leads from start to goal. -/
def Leads (start goal : Configuration) (result : Except SolveFailure Trajectory) (_ : Arena) :
    Prop :=
  ∀ t, result = .ok t → t.Joins start goal

theorem leads_nowhere {reason : SolveFailure} : Leads start goal (.error reason) arena := nofun

theorem leads_directly : Leads start goal (.ok ⟨[start, goal]⟩) arena := by
  rintro t ⟨⟩
  exact ⟨rfl, rfl, Nat.le_of_ble_eq_true rfl⟩

theorem leads_by {via : Configuration} : Leads start goal (.ok ⟨[start, via, goal]⟩) arena := by
  rintro t ⟨⟩
  exact ⟨rfl, rfl, Nat.le_of_ble_eq_true rfl⟩

theorem tryVias_leads (left : Nat) :
    (p.tryVias start goal left).Yields arena (Leads start goal) := by
  induction left generalizing arena with
  | zero =>
    apply Search.yields_unlessStopped leads_nowhere
    exact Search.yields_pure leads_nowhere
  | succ left ih =>
    apply Search.yields_unlessStopped leads_nowhere
    apply Search.yields_after
    intro via _
    apply Search.yields_after
    intro stands _
    cases stands with
    | false => exact ih
    | true =>
      apply Search.yields_after
      intro first _
      cases first with
      | false => exact ih
      | true =>
        apply Search.yields_after
        intro second _
        cases second with
        | false => exact ih
        | true => exact Search.yields_pure leads_by

theorem connect_leads : (p.connect start goal).Yields arena (Leads start goal) := by
  apply Search.yields_after
  intro straight _
  cases straight with
  | true => exact Search.yields_pure leads_directly
  | false =>
    apply Search.yields_unlessStopped leads_nowhere
    exact tryVias_leads _

/-- What a solve between two configurations has come to. -/
def Arrives (arm : Arm) (checker : ObstacleChecker) (start goal : Configuration)
    (result : Except SolveFailure Trajectory) (_ : Arena) : Prop :=
  ∀ t, result = .ok t → arm.StandsAt checker start ∧ arm.StandsAt checker goal ∧
    if (distance start goal == 0) = true then t.waypoints = [start] else t.Joins start goal

theorem arrives_nowhere {arm : Arm} {checker : ObstacleChecker} {reason : SolveFailure} :
    Arrives arm checker start goal (.error reason) arena := nofun

theorem Arrives.stays {arm : Arm} {checker : ObstacleChecker} {t : Trajectory}
    (arrives : Arrives arm checker start goal (.ok t) arena)
    (near : (distance start goal == 0) = true) : t.waypoints = [start] := by
  obtain ⟨-, -, joins⟩ := arrives t rfl
  rwa [if_pos near] at joins

theorem Arrives.joins {arm : Arm} {checker : ObstacleChecker} {t : Trajectory}
    (arrives : Arrives arm checker start goal (.ok t) arena)
    (apart : ¬ (distance start goal == 0) = true) : t.Joins start goal := by
  obtain ⟨-, -, joins⟩ := arrives t rfl
  rwa [if_neg apart] at joins

theorem search_arrives {arm : Arm} {checker : ObstacleChecker} (serves : arena.Serves arm checker) :
    (p.search (.toConfiguration start goal)).Yields arena (Arrives arm checker start goal) := by
  apply Search.yields_bind
  apply Search.yields_dof
  rw [serves.dof]
  by_cases fits : (Problem.toConfiguration start goal).start.length = arm.dof
  · simp only [fits, ne_eq, not_true_eq_false, if_false]
    apply Search.yields_bind
    refine (stateValid_yields serves fits).mono ?_
    rintro valid checked ⟨serves, -, begins⟩
    cases valid with
    | false => exact Search.yields_pure arrives_nowhere
    | true =>
      simp only [Bool.not_true, Bool.false_eq_true, if_false]
      by_cases same : goal.length = arm.dof
      · rw [if_neg (not_not_intro same)]
        apply Search.yields_bind
        refine (stateValid_yields serves same).mono ?_
        rintro valid checked ⟨serves, -, reaches⟩
        cases valid with
        | false => exact Search.yields_pure arrives_nowhere
        | true =>
          simp only [Bool.not_true, Bool.false_eq_true, if_false]
          split
          next near =>
            apply Search.yields_pure
            rintro t ⟨⟩
            exact ⟨begins rfl, reaches rfl, (if_pos near).mpr rfl⟩
          next apart =>
            refine connect_leads.mono ?_
            intro result after leads t found
            exact ⟨begins rfl, reaches rfl, (if_neg apart).mpr (leads t found)⟩
      · rw [if_pos same]
        exact Search.yields_pure arrives_nowhere
  · rw [if_pos fits]
    exact Search.yields_pure arrives_nowhere

end Planner

/-! ## Plans -/

/-- Whether each difference of two configurations, rounded, is so small that its square is lost. -/
def Configuration.IsNear (a b : Configuration) : Prop :=
  ∀ pair ∈ a.zip b, Vanishes (nearest (number pair.1 - number pair.2))

/-- A plan that a planner returns for an arm begins with the start, value by value. It ends with the
goal if it has more than one waypoint. It has a single one, the start, exactly if the goal is so
near that all differences are lost; then it ends with the goal only if the two are equal. -/
theorem plan_joins_its_ends {template : Planner} {arm scratch : Arm} {stream : Random.WordStream}
    {checker : ObstacleChecker} {start goal : Configuration} {stops : Nat → Bool} {asked : Nat}
    {t : Trajectory} {arena : Arena} (copied : arm.copy = .ok scratch)
    (solved : (((template.bindTo arm stream).solve (.toConfiguration start goal) scratch
      checker).answers stops asked).1 = (.ok (.ok t), arena)) :
    (∃ first, t.start? = some first ∧ first = start ∧ first.Same start) ∧
    (t.waypoints.length ≠ 1 → ∃ last, t.end? = some last ∧ last = goal ∧ last.Same goal) ∧
    (t.waypoints.length = 1 ↔ start.IsNear goal) ∧
    ((∃ last, t.end? = some last ∧ last.Same goal) ↔ ¬ start.IsNear goal ∨ start.Same goal) := by
  have bounded := Arm.bounded_of_validate (Arm.validate_of_copy copied)
  obtain rfl := Arm.eq_of_copy copied
  have arrives : Planner.Arrives scratch checker start goal (.ok t) arena :=
    Planner.search_arrives (serves_self scratch checker stream) stops asked _ arena solved
  obtain ⟨begins, reaches, -⟩ := arrives t rfl
  have first := begins.finite bounded
  have last := reaches.finite bounded
  have zero : start.IsNear goal ↔ (distance start goal == 0) = true :=
    (distance_eq_zero_iff first last).symm
  rw [zero]
  by_cases near : (distance start goal == 0) = true
  · obtain ⟨waypoints⟩ := t
    cases arrives.stays near
    refine ⟨⟨start, rfl, rfl, same_self first⟩, fun several => absurd rfl several,
      iff_of_true rfl near, ?_⟩
    constructor
    · rintro ⟨final, same, equal⟩
      cases same
      exact .inr equal
    · rintro (apart | equal)
      · exact absurd near apart
      · exact ⟨start, rfl, equal⟩
  · obtain ⟨starts, ends, several⟩ := arrives.joins near
    have arrives : ∃ last, t.end? = some last ∧ last = goal ∧ last.Same goal :=
      ⟨goal, ends, rfl, same_self last⟩
    refine ⟨⟨start, starts, rfl, same_self first⟩, fun _ => arrives, ?_, ?_⟩
    · exact iff_of_false (Nat.ne_of_gt several) near
    · exact iff_of_true ⟨goal, ends, same_self last⟩ (.inl near)

theorem exists_plan (solved : Planner.Solved) (plan : solved.plan?.isSome = true) :
    ∃ t arena, solved = (.ok (.ok t), arena) := by
  obtain ⟨⟨t, arena⟩, found⟩ := Option.isSome_iff_exists.mp plan
  exact ⟨t, arena, eq_of_plan? found⟩

theorem copy_halfRadian : halfRadian.copy = .ok halfRadian := by
  have valid : halfRadian.validate = .ok () := eq_ok_of_isOk (by decide +kernel)
  rw [Arm.copy, valid]
  rfl

theorem plan_ends_at_half_a_radian :
    ∃ t arena, halfRadian.copy = .ok halfRadian ∧
      (((eighths.bindTo halfRadian (.ofSeed 7)).solve (.toConfiguration [0] [0.5]) halfRadian
        { obstacles := [] }).answers (fun _ => false) 0).1 = (.ok (.ok t), arena) ∧
      (∃ first, t.start? = some first ∧ first = [0]) ∧
      ∃ last, t.end? = some last ∧ last.Same [0.5] := by
  obtain ⟨t, arena, solved⟩ := exists_plan (((eighths.bindTo halfRadian (.ofSeed 7)).solve
    (.toConfiguration [0] [0.5]) halfRadian { obstacles := [] }).answers (fun _ => false) 0).1
    (by decide +kernel)
  obtain ⟨⟨first, starts, begins, -⟩, -, -, arrives⟩ := plan_joins_its_ends copy_halfRadian solved
  have apart : ¬ Configuration.IsNear [0] [0.5] := by
    refine mt (distance_eq_zero_iff ?_ ?_).mpr ?_ <;> decide +kernel
  exact ⟨t, arena, copy_halfRadian, solved, ⟨first, starts, begins⟩, arrives.mpr (.inl apart)⟩

/-- So near to zero that its square is lost. -/
def hair : Float := 1e-200

/-- A goal at distance zero that is not the start: the plan stays where it is. -/
theorem plan_short_of_a_near_goal :
    ∃ t arena, halfRadian.copy = .ok halfRadian ∧
      (((eighths.bindTo halfRadian (.ofSeed 7)).solve (.toConfiguration [0] [hair]) halfRadian
        { obstacles := [] }).answers (fun _ => false) 0).1 = (.ok (.ok t), arena) ∧
      ∀ last, t.end? = some last → ¬ last.Same [hair] := by
  obtain ⟨t, arena, solved⟩ := exists_plan (((eighths.bindTo halfRadian (.ofSeed 7)).solve
    (.toConfiguration [0] [hair]) halfRadian { obstacles := [] }).answers (fun _ => false) 0).1
    (by decide +kernel)
  have arrives := Planner.search_arrives (serves_self _ _ _) _ _ _ _ solved
  have stays : t.waypoints = [[0]] := arrives.stays (by decide +kernel)
  have differ : ¬ Configuration.Same [0] [hair] := by decide +kernel
  refine ⟨t, arena, copy_halfRadian, solved, ?_⟩
  intro last ended
  rw [Trajectory.end?, stays] at ended
  cases ended
  exact differ

end MotionRace
