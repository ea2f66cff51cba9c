import MotionRace.Proofs.Arm.Copies
import MotionRace.Proofs.Planner.Yields

/-!
# Returned plans are valid

A search works on a scratch arm whose positions it overwrites at each check. Where the positions are
as many as the joints, nothing of the former ones is left, so a check says something of the arm that
the scratch arm was copied from. A segment counts as valid when every state that it is cut into was
accepted; a request to stop makes it invalid and never valid.

Main statement: `returned_plan_is_valid`.
-/

namespace MotionRace

open MotionRace.Geometry (Region)

namespace Arm

theorem place_place {joints : List Joint} {q : List Float} (fits : q.length = joints.length)
    (former : List Float) : place (place joints former) q = place joints q := by
  induction joints generalizing q former with
  | nil => cases former <;> rfl
  | cons joint joints ih =>
    cases q with
    | nil => cases fits
    | cons position q =>
      cases former with
      | nil => rfl
      | cons other former =>
        simp only [place]
        rw [ih (Nat.succ.inj fits)]

/-- Positions for every joint leave nothing of the former ones. -/
theorem setPositions_setPositions {arm : Arm} {q : Configuration} (fits : q.length = arm.dof)
    (former : Configuration) : (arm.setPositions former).setPositions q = arm.setPositions q :=
  congrArg (fun joints => { arm with joints }) (place_place fits former)

/-- Whether an arm stands validly in a configuration: it has one position for each joint, every
joint is within its limits, and no link hits an obstacle. -/
def StandsAt (arm : Arm) (checker : ObstacleChecker) (q : Configuration) : Prop :=
  q.length = arm.dof ∧
    (∀ joint ∈ (arm.setPositions q).joints,
      joint.lower ≤ joint.position ∧ joint.position ≤ joint.upper) ∧
    ∀ link ∈ ObstacleChecker.links (arm.setPositions q), ∀ circle ∈ checker.obstacles,
      circle.hits link.1 link.2 checker.margin = false

/-- What a checker accepts is what stands validly. -/
theorem standsAt_iff {arm : Arm} {checker : ObstacleChecker} {q : Configuration}
    (fits : q.length = arm.dof) :
    checker.accepts (arm.setPositions q) = true ↔ arm.StandsAt checker q := by
  rw [ObstacleChecker.accepts_iff, StandsAt, and_iff_right fits]

end Arm

/-- The configuration a share `t` of the way from `a` to `b`, joint by joint. -/
def between (a b : Configuration) (t : Float) : Configuration :=
  List.zipWith (fun x y => x + (y - x) * t) a b

/-- Whether an arm stands validly in every state that a segment is cut into, both ends included. -/
def Arm.StandsAlong (arm : Arm) (checker : ObstacleChecker) (resolution : Float)
    (a b : Configuration) : Prop :=
  ∀ i ≤ stepCount resolution (span a b),
    arm.StandsAt checker (between a b (shareOf i (stepCount resolution (span a b))))

/-- Whether a trajectory is valid on an arm: it stands validly at each waypoint and along each
segment. -/
structure Trajectory.Valid (t : Trajectory) (arm : Arm) (checker : ObstacleChecker)
    (resolution : Float) : Prop where
  one_le : 1 ≤ t.waypoints.length
  few : t.waypoints.length ≤ 3
  stands : ∀ q ∈ t.waypoints, arm.StandsAt checker q
  along : ∀ segment ∈ t.waypoints.zip t.waypoints.tail,
    arm.StandsAlong checker resolution segment.1 segment.2

/-- An arena for an arm: its own arm is that one but for the positions, and its checker is the same
but for the count. -/
structure Arena.Serves (arena : Arena) (arm : Arm) (checker : ObstacleChecker) : Prop where
  dof : arena.arm.dof = arm.dof
  placed : ∀ q : Configuration, q.length = arm.dof → arena.arm.setPositions q = arm.setPositions q
  obstacles : arena.checker.obstacles = checker.obstacles
  margin : arena.checker.margin = checker.margin

section Search

variable {arm : Arm} {checker : ObstacleChecker} {arena : Arena} {a b q start goal : Configuration}

theorem serves_self (arm : Arm) (checker : ObstacleChecker) (stream : Random.WordStream) :
    Arena.Serves ⟨arm, checker, stream⟩ arm checker :=
  ⟨rfl, fun _ _ => rfl, rfl, rfl⟩

theorem Arena.Serves.accepts_eq (serves : arena.Serves arm checker) (stood : Arm) :
    arena.checker.accepts stood = checker.accepts stood := by
  simp only [ObstacleChecker.accepts, ObstacleChecker.collides, serves.obstacles, serves.margin]

theorem stateValid_yields (serves : arena.Serves arm checker) (fits : q.length = arm.dof) :
    (Search.stateValid q).Yields arena fun valid after =>
      after.Serves arm checker ∧ after.arm = arm.setPositions q ∧
        (valid = true → arm.StandsAt checker q) := by
  apply Search.yields_stateValid
  rw [serves.placed q fits, serves.accepts_eq]
  refine ⟨⟨Arm.dof_setPositions arm q, fun other whole => ?_, serves.obstacles, serves.margin⟩, rfl,
    (Arm.standsAt_iff fits).mp⟩
  exact Arm.setPositions_setPositions whole q

theorem sample_yields (serves : arena.Serves arm checker) :
    (Search.sample arm.limits).Yields arena fun q after =>
      after.Serves arm checker ∧ q.length = arm.dof := by
  apply Search.yields_sample
  intro q stream drawn
  refine ⟨⟨serves.dof, serves.placed, serves.obstacles, serves.margin⟩, ?_⟩
  rw [Random.length_drawAll drawn, Arm.limits, List.length_map, Arm.dof]

namespace Planner

/-! ## Segments -/

/-- States that were checked one after another are all valid, if the check did not fail. -/
theorem checkStates_yields (serves : arena.Serves arm checker) (fits : a.length = arm.dof)
    (also : b.length = arm.dof) (steps left i : Nat) :
    (checkStates a b steps left i).Yields arena fun valid after =>
      after.Serves arm checker ∧ (valid = true → ∀ j, i ≤ j → j < i + left →
        arm.StandsAt checker (between a b (shareOf j steps))) := by
  have fit (t : Float) : (between a b t).length = arm.dof := by
    rw [between, List.length_zipWith, fits, also, Nat.min_self]
  induction left generalizing i arena with
  | zero =>
    apply Search.yields_pure
    exact ⟨serves, fun _ j above below => absurd above (Nat.not_le_of_lt below)⟩
  | succ left ih =>
    refine Search.yields_unlessStopped ⟨serves, nofun⟩ ?_
    have state : interpolate a b (shareOf i steps) = .ok (between a b (shareOf i steps)) :=
      if_pos (Nat.le_of_eq (fits.trans also.symm))
    simp only [state]
    apply Search.yields_bind
    refine (stateValid_yields serves (fit _)).mono ?_
    rintro valid after ⟨serves, -, stands⟩
    cases valid with
    | false =>
      apply Search.yields_pure
      exact ⟨serves, nofun⟩
    | true =>
      refine (ih serves (i + 1)).mono ?_
      rintro valid after ⟨serves, rest⟩
      refine ⟨serves, fun found j above below => ?_⟩
      rcases Nat.eq_or_lt_of_le above with rfl | above
      · exact stands rfl
      · exact rest found j above (by omega)

theorem segmentValid_yields (serves : arena.Serves arm checker) (fits : a.length = arm.dof)
    (also : b.length = arm.dof) (resolution : Float) :
    (segmentValid resolution a b).Yields arena fun valid after =>
      after.Serves arm checker ∧ (valid = true → arm.StandsAlong checker resolution a b) := by
  refine (checkStates_yields serves fits also _ _ 0).mono ?_
  rintro valid after ⟨serves, stands⟩
  exact ⟨serves, fun found i within => stands found i (Nat.zero_le i) (by omega)⟩

/-! ## Paths -/

/-- What a search has come to: a trajectory that it found is valid and ends as described. -/
def Finds (arm : Arm) (checker : ObstacleChecker) (resolution : Float) (ends : Configuration → Prop)
    (result : Except SolveFailure Trajectory) (after : Arena) : Prop :=
  after.Serves arm checker ∧ ∀ t, result = .ok t →
    t.Valid arm checker resolution ∧ ∃ last, t.end? = some last ∧ ends last

variable {resolution : Float} {ends weaker : Configuration → Prop}

theorem finds_nothing {reason : SolveFailure} (serves : arena.Serves arm checker) :
    Finds arm checker resolution ends (.error reason) arena :=
  ⟨serves, nofun⟩

theorem finds {t : Trajectory} {last : Configuration} (serves : arena.Serves arm checker)
    (valid : t.Valid arm checker resolution) (ended : t.end? = some last) (reaches : ends last) :
    Finds arm checker resolution ends (.ok t) arena := by
  refine ⟨serves, fun other same => ?_⟩
  obtain rfl := Except.ok.inj same
  exact ⟨valid, last, ended, reaches⟩

theorem Finds.mono {result : Except SolveFailure Trajectory}
    (finds : Finds arm checker resolution ends result arena)
    (weaken : ∀ last, ends last → weaker last) :
    Finds arm checker resolution weaker result arena := by
  obtain ⟨serves, found⟩ := finds
  refine ⟨serves, fun t same => ?_⟩
  obtain ⟨valid, last, ended, reaches⟩ := found t same
  exact ⟨valid, last, ended, weaken last reaches⟩

theorem valid_point (stands : arm.StandsAt checker a) :
    Trajectory.Valid ⟨[a]⟩ arm checker resolution where
  one_le := Nat.le_refl 1
  few := Nat.le_of_ble_eq_true rfl
  stands _ listed := List.mem_singleton.mp listed ▸ stands
  along _ listed := absurd listed List.not_mem_nil

theorem valid_segment (stands : arm.StandsAt checker a) (also : arm.StandsAt checker b)
    (along : arm.StandsAlong checker resolution a b) :
    Trajectory.Valid ⟨[a, b]⟩ arm checker resolution where
  one_le := Nat.le_of_ble_eq_true rfl
  few := Nat.le_of_ble_eq_true rfl
  stands := by simp [stands, also]
  along := by simp [along]

theorem valid_detour {via : Configuration} (stands : arm.StandsAt checker a)
    (between : arm.StandsAt checker via) (also : arm.StandsAt checker b)
    (first : arm.StandsAlong checker resolution a via)
    (second : arm.StandsAlong checker resolution via b) :
    Trajectory.Valid ⟨[a, via, b]⟩ arm checker resolution where
  one_le := Nat.le_of_ble_eq_true rfl
  few := Nat.le_of_ble_eq_true rfl
  stands := by simp [stands, between, also]
  along := by simp [first, second]

variable {p : Planner} (bound : p.limits = arm.limits) (begins : arm.StandsAt checker start)
include bound begins

theorem tryVias_yields (serves : arena.Serves arm checker) (reaches : arm.StandsAt checker goal)
    (left : Nat) :
    (tryVias p start goal left).Yields arena
      (Finds arm checker p.settings.resolution (· = goal)) := by
  induction left generalizing arena with
  | zero =>
    apply Search.yields_unlessStopped (finds_nothing serves)
    exact Search.yields_pure (finds_nothing serves)
  | succ left ih =>
    apply Search.yields_unlessStopped (finds_nothing serves)
    apply Search.yields_bind
    rw [bound]
    refine (sample_yields serves).mono ?_
    rintro via drawn ⟨serves, fits⟩
    apply Search.yields_bind
    refine (stateValid_yields serves fits).mono ?_
    rintro valid checked ⟨serves, -, stands⟩
    cases valid with
    | false => exact ih serves
    | true =>
      apply Search.yields_bind
      refine (segmentValid_yields serves begins.1 fits _).mono ?_
      rintro valid first ⟨serves, toVia⟩
      cases valid with
      | false => exact ih serves
      | true =>
        apply Search.yields_bind
        refine (segmentValid_yields serves fits reaches.1 _).mono ?_
        rintro valid second ⟨serves, toGoal⟩
        cases valid with
        | false => exact ih serves
        | true =>
          have valid := valid_detour begins (stands rfl) reaches (toVia rfl) (toGoal rfl)
          exact Search.yields_pure (finds serves valid rfl rfl)

theorem connect_yields (serves : arena.Serves arm checker) (reaches : arm.StandsAt checker goal) :
    (connect p start goal).Yields arena
      (Finds arm checker p.settings.resolution (· = goal)) := by
  apply Search.yields_bind
  refine (segmentValid_yields serves begins.1 reaches.1 _).mono ?_
  rintro valid after ⟨serves, along⟩
  cases valid with
  | true =>
    have valid := valid_segment begins reaches (along rfl)
    exact Search.yields_pure (finds serves valid rfl rfl)
  | false =>
    apply Search.yields_unlessStopped (finds_nothing serves)
    exact tryVias_yields bound begins serves reaches _

theorem reachRegion_yields (serves : arena.Serves arm checker) (region : Region Float) (left : Nat)
    (found : Bool) :
    (reachRegion p start region left found).Yields arena
      (Finds arm checker p.settings.resolution
        fun last => region.contains (arm.setPositions last).endEffector = true) := by
  induction left generalizing arena found with
  | zero =>
    apply Search.yields_pure
    exact finds_nothing serves
  | succ left ih =>
    apply Search.yields_unlessStopped (finds_nothing serves)
    apply Search.yields_bind
    rw [bound]
    refine (sample_yields serves).mono ?_
    rintro q drawn ⟨serves, fits⟩
    apply Search.yields_bind
    refine (stateValid_yields serves fits).mono ?_
    rintro valid checked ⟨serves, placed, stands⟩
    cases valid with
    | false => exact ih serves found
    | true =>
      apply Search.yields_bind
      apply Search.yields_endEffector
      -- The scratch arm is still where the check has put it.
      rw [placed]
      cases inside : region.contains (arm.setPositions q).endEffector with
      | false => exact ih serves found
      | true =>
        apply Search.yields_bind
        refine (connect_yields bound begins serves (stands rfl)).mono ?_
        intro result after joined
        cases result with
        | error reason =>
          cases reason with
          | exhausted => exact ih joined.1 true
          | _ => exact Search.yields_pure (finds_nothing joined.1)
        | ok t =>
          apply Search.yields_pure
          refine joined.mono ?_
          rintro last rfl
          exact inside

omit begins in
theorem search_yields (serves : arena.Serves arm checker) (problem : Problem) :
    (search p problem).Yields arena
      (Finds arm checker p.settings.resolution fun last => ∀ start region,
        problem = .toRegion start region →
          region.contains (arm.setPositions last).endEffector = true) := by
  apply Search.yields_bind
  apply Search.yields_dof
  rw [serves.dof]
  by_cases fits : problem.start.length = arm.dof
  · simp only [fits, ne_eq, not_true_eq_false, if_false]
    apply Search.yields_bind
    refine (stateValid_yields serves fits).mono ?_
    rintro valid checked ⟨serves, placed, begins⟩
    cases valid with
    | false => exact Search.yields_pure (finds_nothing serves)
    | true =>
      have begins := begins rfl
      cases problem with
      | toConfiguration start goal =>
        simp only [Bool.not_true, Bool.false_eq_true, if_false]
        by_cases same : goal.length = arm.dof
        · rw [if_neg (not_not_intro same)]
          apply Search.yields_bind
          refine (stateValid_yields serves same).mono ?_
          rintro valid checked ⟨serves, -, reaches⟩
          cases valid with
          | false => exact Search.yields_pure (finds_nothing serves)
          | true =>
            simp only [Bool.not_true, Bool.false_eq_true, if_false]
            split
            next => exact Search.yields_pure (finds serves (valid_point begins) rfl nofun)
            next =>
              refine (connect_yields bound begins serves (reaches rfl)).mono ?_
              exact fun result after joined => joined.mono fun _ _ => nofun
        · rw [if_pos same]
          exact Search.yields_pure (finds_nothing serves)
      | toRegion start region =>
        simp only [Bool.not_true, Bool.false_eq_true, if_false]
        apply Search.yields_bind
        apply Search.yields_endEffector
        rw [placed]
        split
        next inside =>
          refine Search.yields_pure (finds serves (valid_point begins) rfl ?_)
          rintro start goal ⟨rfl, rfl⟩
          exact inside
        next =>
          refine (reachRegion_yields bound begins serves region _ _).mono ?_
          intro result after joined
          refine joined.mono ?_
          rintro last inside start goal ⟨rfl, rfl⟩
          exact inside
  · rw [if_pos fits]
    exact Search.yields_pure (finds_nothing serves)

end Planner

end Search

/-- A plan that a planner returns for an arm is valid on that arm, and reaches the region that it
was asked to reach. -/
theorem returned_plan_is_valid {template : Planner} {arm scratch : Arm} {stream : Random.WordStream}
    {checker : ObstacleChecker} {problem : Problem} {stops : Nat → Bool} {asked : Nat}
    {t : Trajectory} {arena : Arena} (copied : arm.copy = .ok scratch)
    (solved : (((template.bindTo arm stream).solve problem scratch checker).answers stops asked).1 =
      (.ok (.ok t), arena)) :
    1 ≤ t.waypoints.length ∧ t.waypoints.length ≤ 3 ∧
    (∀ q ∈ t.waypoints, arm.StandsAt checker q) ∧
    -- Between two waypoints the arm stands validly after each of the steps.
    (∀ segment ∈ t.waypoints.zip t.waypoints.tail,
      let steps := stepCount template.settings.resolution (span segment.1 segment.2)
      ∀ i ≤ steps, arm.StandsAt checker
        (List.zipWith (fun x y => x + (y - x) * shareOf i steps) segment.1 segment.2)) ∧
    ∀ start region, problem = .toRegion start region →
      ∃ last, t.end? = some last ∧
        region.contains (arm.setPositions last).endEffector = true := by
  obtain rfl := Arm.eq_of_copy copied
  have serves := serves_self scratch checker stream
  obtain ⟨-, found⟩ := Planner.search_yields (p := template.bindTo scratch stream) rfl serves
    problem stops asked _ arena solved
  obtain ⟨valid, last, ended, inside⟩ := found t rfl
  refine ⟨valid.one_le, valid.few, valid.stands, valid.along, fun start region same => ?_⟩
  exact ⟨last, ended, inside start region same⟩

/-- An arm of one joint that turns half a radian either way. -/
def halfRadian : Arm :=
  { name := "arm", joints := [{ name := "j0", length := 1, lower := -0.5, upper := 0.5 }] }

/-- A planner that checks every eighth of a radian. -/
def eighths : Planner := .ofSettings { resolution := 0.125 } (.ofSeed 0)

/-- The plan that a search has come to. -/
def Planner.Solved.plan? : Planner.Solved → Option (Trajectory × Arena)
  | (.ok (.ok t), arena) => some (t, arena)
  | _ => none

theorem eq_of_plan? {solved : Planner.Solved} {t : Trajectory} {arena : Arena}
    (plan : solved.plan? = some (t, arena)) : solved = (.ok (.ok t), arena) := by
  unfold Planner.Solved.plan? at plan
  split at plan
  · cases plan
    rfl
  · cases plan

theorem plan_for_half_a_radian :
    ∃ scratch t arena, halfRadian.copy = .ok scratch ∧
      (((eighths.bindTo halfRadian (.ofSeed 7)).solve (.toConfiguration [0] [0.5]) scratch
        { obstacles := [] }).answers (fun _ => false) 0).1 = (.ok (.ok t), arena) ∧
      1 ≤ t.waypoints.length ∧ t.waypoints.length ≤ 3 ∧
      ∀ q ∈ t.waypoints, halfRadian.StandsAt { obstacles := [] } q := by
  have plans : (halfRadian.copy.toOption.bind fun scratch =>
      (((eighths.bindTo halfRadian (.ofSeed 7)).solve (.toConfiguration [0] [0.5]) scratch
        { obstacles := [] }).answers (fun _ => false) 0).1.plan?).isSome = true := by
    decide +kernel
  obtain ⟨⟨t, arena⟩, found⟩ := Option.isSome_iff_exists.mp plans
  obtain ⟨scratch, copied, plan⟩ := Option.bind_eq_some_iff.mp found
  have copied : halfRadian.copy = .ok scratch := by
    cases made : halfRadian.copy with
    | error e =>
      rw [made] at copied
      cases copied
    | ok other =>
      rw [made] at copied
      cases copied
      rfl
  have solved := eq_of_plan? plan
  obtain ⟨long, few, stands, -⟩ := returned_plan_is_valid copied solved
  exact ⟨scratch, t, arena, copied, solved, long, few, stands⟩

end MotionRace
