import MotionRace.Pool.Worker
import MotionRace.Proofs.Planner.Meets
import MotionRace.Proofs.Planner.ReturnedPlans

/-!
# What takes a search down

A search reads one configuration along another, and it draws. The former never fails, since all the
configurations of a search have a position for each joint. A draw fails where the limits of a joint
are too wide, and then it fails whatever the stream. So the first draw of a search decides: on an
arm with such a joint it takes the search down, and on any other arm no draw ever does.

Main statement: `Planner.search_meets`.
-/

namespace MotionRace

open MotionRace.Geometry (Region)

/-- Whether an arm has a joint with limits that are too wide to draw from. -/
def Arm.TooWide (arm : Arm) : Prop := ∃ limit ∈ arm.limits, Random.TooWide limit

/-- Whether a problem cannot be settled on an arm without a draw: the arm stands validly at the
start, and neither there nor by a straight move is it where it is asked to go. -/
def Problem.NeedsDraw (arm : Arm) (checker : ObstacleChecker) (resolution : Float) :
    Problem → Prop
  | .toConfiguration start goal =>
    arm.StandsAt checker start ∧ arm.StandsAt checker goal ∧ (distance start goal == 0) = false ∧
      ¬ arm.StandsAlong checker resolution start goal
  | .toRegion start region =>
    arm.StandsAt checker start ∧ region.contains (arm.setPositions start).endEffector = false

theorem Problem.NeedsDraw.standsAt {problem : Problem} {arm : Arm} {checker : ObstacleChecker}
    {resolution : Float} (needs : problem.NeedsDraw arm checker resolution) :
    arm.StandsAt checker problem.start := by
  cases problem with
  | toConfiguration => exact needs.1
  | toRegion => exact needs.1

/-- Whether a request to stop is never taken back. -/
def Steady (stops : Nat → Bool) : Prop := ∀ n, stops n = true → stops (n + 1) = true

theorem Steady.of_le {stops : Nat → Bool} (steady : Steady stops) {first later : Nat}
    (before : first ≤ later) (stopped : stops first = true) : stops later = true := by
  induction before with
  | refl => exact stopped
  | step _ ih => exact steady _ ih

/-- What a search comes to on an arm. Only a refused draw makes it a crash, and only where it `may`.
Where it `must` draw, limits that are too wide do take it down. -/
structure Refusal (arm : Arm) (checker : ObstacleChecker) (may must : Prop)
    (result : Except Panic (Except SolveFailure Trajectory)) (after : Arena) : Prop where
  serves : after.Serves arm checker
  crashes : ∀ message, Verdict.ofSolve result = .failure (.crashed message) →
    message = Random.rangeOverflow.message ∧ arm.TooWide ∧ may
  forced : arm.TooWide → must → result = .error Random.rangeOverflow

namespace Refusal

variable {arm : Arm} {checker : ObstacleChecker} {may must also only : Prop}
  {result : Except Panic (Except SolveFailure Trajectory)}
  {found : Except SolveFailure Trajectory} {after : Arena}

theorem of_ok (serves : after.Serves arm checker) (free : ¬ must)
    (calm : ∀ message, found ≠ .error (.crashed message)) :
    Refusal arm checker may must (.ok found) after where
  serves := serves
  crashes message crashed := by
    cases found with
    | ok t => cases crashed
    | error reason => exact absurd (congrArg _ (Verdict.failure.inj crashed)) (calm message)
  forced _ forced := absurd forced free

theorem of_refused (serves : after.Serves arm checker) (wide : arm.TooWide) (allowed : may) :
    Refusal arm checker may must (.error Random.rangeOverflow) after where
  serves := serves
  crashes := by
    intro message crashed
    obtain rfl := SolveFailure.crashed.inj (Verdict.failure.inj crashed)
    exact ⟨rfl, wide, allowed⟩
  forced _ _ := rfl

theorem mono (refusal : Refusal arm checker may must result after) (weaken : may → also)
    (strengthen : only → must) : Refusal arm checker also only result after where
  serves := refusal.serves
  crashes := by
    intro message crashed
    obtain ⟨named, wide, allowed⟩ := refusal.crashes message crashed
    exact ⟨named, wide, weaken allowed⟩
  forced wide forced := refusal.forced wide (strengthen forced)

/-- Without limits that are too wide nothing is refused. -/
theorem of_narrow (refusal : Refusal arm checker may must result after) (narrow : ¬ arm.TooWide) :
    Refusal arm checker also only result after where
  serves := refusal.serves
  crashes message crashed := absurd (refusal.crashes message crashed).2.1 narrow
  forced wide _ := absurd wide narrow

theorem of_ok_narrow (serves : after.Serves arm checker) (narrow : ¬ arm.TooWide)
    (calm : ∀ message, found ≠ .error (.crashed message)) :
    Refusal arm checker may must (.ok found) after :=
  (of_ok serves not_false calm : Refusal arm checker True False _ _).of_narrow narrow

end Refusal

section Search

variable {arm : Arm} {checker : ObstacleChecker} {arena : Arena} {a b q start goal : Configuration}
  {β : Type} {stops : Nat → Bool} {asked : Nat} {last : Except Panic β → Nat → Arena → Prop}

/-! ## Steps -/

/-- A search that checks a state goes on from it, valid or not. -/
theorem meets_check {f : Bool → Search β} (serves : arena.Serves arm checker)
    (fits : q.length = arm.dof)
    (goesOn : ∀ valid after, after.Serves arm checker → after.arm = arm.setPositions q →
      (valid = true ↔ arm.StandsAt checker q) → (f valid).Meets stops asked after last) :
    (Search.stateValid q >>= f).Meets stops asked arena last := by
  apply Search.meets_stateValid
  rw [serves.placed q fits, serves.accepts_eq]
  refine goesOn _ _ ⟨Arm.dof_setPositions arm q, fun other whole => ?_, serves.obstacles,
    serves.margin⟩ rfl (Arm.standsAt_iff fits)
  exact Arm.setPositions_setPositions whole q

/-- A search that draws goes on if no limits are too wide, and is over if some are. -/
theorem meets_draw {f : Configuration → Search β} (serves : arena.Serves arm checker)
    (goesOn : ¬ arm.TooWide → ∀ q after, after.Serves arm checker → q.length = arm.dof →
      (f q).Meets stops asked after last)
    (refused : arm.TooWide → ∀ after, after.Serves arm checker →
      last (.error Random.rangeOverflow) asked after) :
    (Search.sample arm.limits >>= f).Meets stops asked arena last := by
  have still (stream : Random.WordStream) : Arena.Serves { arena with stream } arm checker :=
    ⟨serves.dof, serves.placed, serves.obstacles, serves.margin⟩
  refine Search.meets_bind (Search.meets_sample fun result stream drawn => ⟨stream, drawn, rfl⟩ :
    Search.Meets _ _ _ _ fun result n after => ∃ stream,
      Random.drawAll arm.limits arena.stream = (result, stream) ∧
        (n, after) = (asked, { arena with stream })) ?_ ?_
  · rintro q n after ⟨stream, drawn, same⟩
    cases same
    rcases Random.drawAll_cases arm.limits arena.stream with ⟨-, _, refused⟩ | ⟨narrow, -⟩
    · cases refused.symm.trans drawn
    · refine goesOn narrow q _ (still stream) ?_
      rw [Random.length_drawAll drawn, Arm.limits, List.length_map, Arm.dof]
  · rintro p n after ⟨stream, drawn, same⟩
    cases same
    rcases Random.drawAll_cases arm.limits arena.stream with ⟨wide, _, panic⟩ | ⟨-, _, _, drew⟩
    · cases panic.symm.trans drawn
      exact refused wide _ (still stream)
    · cases drew.symm.trans drawn

namespace Planner

/-! ## Segments -/

/-- States that are checked one after another end the check with the first that is not valid, if it
is not asked to stop before. -/
theorem checkStates_meets (serves : arena.Serves arm checker) (fits : a.length = arm.dof)
    (also : b.length = arm.dof) (steps left i : Nat) :
    (checkStates a b steps left i).Meets stops asked arena fun result n after =>
      after.Serves arm checker ∧ asked ≤ n ∧ ∃ valid, result = .ok valid ∧
        (valid = false → (∀ k, asked ≤ k → k < n → stops k = false) →
          ∃ j, i ≤ j ∧ j < i + left ∧
            ¬ arm.StandsAt checker (between a b (shareOf j steps))) := by
  have fit (t : Float) : (between a b t).length = arm.dof := by
    rw [between, List.length_zipWith, fits, also, Nat.min_self]
  induction left generalizing i asked arena with
  | zero => exact Search.meets_pure ⟨serves, Nat.le_refl asked, true, rfl, Bool.noConfusion⟩
  | succ left ih =>
    apply Search.meets_unlessStopped
    · intro stopped
      refine ⟨serves, Nat.le_succ asked, false, rfl, fun _ unstopped => ?_⟩
      have answer := unstopped asked (Nat.le_refl asked) (Nat.lt_succ_self asked)
      exact absurd stopped (ne_true_of_eq_false answer)
    · intro _
      have state : interpolate a b (shareOf i steps) = .ok (between a b (shareOf i steps)) :=
        if_pos (Nat.le_of_eq (fits.trans also.symm))
      simp only [state]
      refine meets_check serves (fit _) fun valid after serves placed stands => ?_
      cases valid with
      | false =>
        refine Search.meets_pure ⟨serves, Nat.le_succ asked, false, rfl, fun _ _ => ?_⟩
        exact ⟨i, Nat.le_refl i, by omega,
          fun stood => absurd (stands.mpr stood) Bool.false_ne_true⟩
      | true =>
        refine (ih serves (i + 1)).mono ?_
        rintro result n after ⟨serves, later, valid, rfl, fails⟩
        refine ⟨serves, Nat.le_of_succ_le later, valid, rfl, fun invalid unstopped => ?_⟩
        obtain ⟨j, above, below, falls⟩ := fails invalid fun k above below =>
          unstopped k (Nat.le_of_succ_le above) below
        exact ⟨j, Nat.le_of_succ_le above, by omega, falls⟩

/-- A search that checks a segment goes on from it. A segment that is found invalid is so, or the
search was asked to stop meanwhile. -/
theorem meets_segment {f : Bool → Search β} (serves : arena.Serves arm checker)
    (fits : a.length = arm.dof) (also : b.length = arm.dof) (resolution : Float)
    (goesOn : ∀ valid n after, after.Serves arm checker →
      (valid = true → arm.StandsAlong checker resolution a b) →
      (valid = false → (∀ k, k < n → stops k = false) →
        ¬ arm.StandsAlong checker resolution a b) →
      asked ≤ n → (f valid).Meets stops n after last) :
    (segmentValid resolution a b >>= f).Meets stops asked arena last := by
  have states : (segmentValid resolution a b).Meets stops asked arena _ :=
    checkStates_meets serves fits also _ _ 0
  refine Search.meets_bind ((segmentValid_yields serves fits also resolution).meets states) ?_ ?_
  · rintro valid n after ⟨⟨serves, later, _, same, fails⟩, found⟩
    obtain rfl := Except.ok.inj same
    refine goesOn valid n after serves (found valid rfl).2 (fun invalid unstopped along => ?_) later
    obtain ⟨j, -, below, falls⟩ := fails invalid fun k _ below => unstopped k below
    exact falls (along j (by omega))
  · rintro p n after ⟨⟨-, -, _, same, -⟩, -⟩
    cases same

/-! ## Paths -/

variable {p : Planner} (bound : p.limits = arm.limits)
include bound

theorem tryVias_meets (serves : arena.Serves arm checker) (fits : start.length = arm.dof)
    (also : goal.length = arm.dof) (left : Nat) :
    (tryVias p start goal left).Meets stops asked arena fun result _ after =>
      Refusal arm checker True (left ≠ 0 ∧ stops asked = false) result after := by
  induction left generalizing asked arena with
  | zero =>
    have free : ¬ (0 ≠ 0 ∧ stops asked = false) := fun forced => forced.1 rfl
    exact Search.meets_unlessStopped (fun _ => .of_ok serves free nofun)
      fun _ => Search.meets_pure (.of_ok serves free nofun)
  | succ left ih =>
    apply Search.meets_unlessStopped
    · intro stopped
      exact .of_ok serves (fun forced => absurd stopped (ne_true_of_eq_false forced.2)) nofun
    · intro _
      rw [bound]
      refine meets_draw serves (fun narrow via after serves whole => ?_)
        fun wide after serves => .of_refused serves wide trivial
      -- From here on nothing is refused, so it does not matter which question comes next.
      have rest {n : Nat} {after : Arena} (serves : after.Serves arm checker) :
          (tryVias p start goal left).Meets stops n after fun result _ last =>
            Refusal arm checker True (left + 1 ≠ 0 ∧ stops asked = false) result last :=
        (ih serves).mono fun _ _ _ refusal => refusal.of_narrow narrow
      refine meets_check serves whole fun valid checked serves _ _ => ?_
      cases valid with
      | false => exact rest serves
      | true =>
        refine meets_segment serves fits whole _ fun valid n first serves _ _ _ => ?_
        cases valid with
        | false => exact rest serves
        | true =>
          refine meets_segment serves whole also _ fun valid n second serves _ _ _ => ?_
          cases valid with
          | false => exact rest serves
          | true => exact Search.meets_pure (.of_ok_narrow serves narrow nofun)

theorem connect_meets (serves : arena.Serves arm checker) (fits : start.length = arm.dof)
    (also : goal.length = arm.dof) :
    (connect p start goal).Meets stops asked arena fun result _ after =>
      Refusal arm checker
        (Steady stops → ¬ arm.StandsAlong checker p.settings.resolution start goal)
        ((∀ n, stops n = false) ∧ p.settings.maxAttempts ≠ 0 ∧
          ¬ arm.StandsAlong checker p.settings.resolution start goal)
        result after := by
  refine meets_segment serves fits also _ fun valid n after serves along fails _ => ?_
  cases valid with
  | true => exact Search.meets_pure (.of_ok serves (fun forced => forced.2.2 (along rfl)) nofun)
  | false =>
    apply Search.meets_unlessStopped
    · intro stopped
      exact .of_ok serves (fun forced => absurd stopped (ne_true_of_eq_false (forced.1 n))) nofun
    · intro unstopped
      refine (tryVias_meets bound serves fits also _).mono fun result _ last refusal => ?_
      refine refusal.mono (fun _ steady => ?_) fun forced => ⟨forced.2.1, forced.1 (n + 1)⟩
      -- A search that was asked to stop before would be asked to stop now.
      refine fails rfl fun k before => Bool.eq_false_iff.mpr fun stopped => ?_
      have still := steady.of_le (Nat.le_of_lt before) stopped
      exact absurd still (ne_true_of_eq_false unstopped)

theorem reachRegion_meets (serves : arena.Serves arm checker) (fits : start.length = arm.dof)
    (region : Region Float) (left : Nat) (found : Bool) :
    (reachRegion p start region left found).Meets stops asked arena fun result _ after =>
      Refusal arm checker True (left ≠ 0 ∧ stops asked = false) result after := by
  induction left generalizing asked arena found with
  | zero =>
    refine Search.meets_pure (.of_ok serves (fun forced => forced.1 rfl) ?_)
    cases found <;> exact nofun
  | succ left ih =>
    apply Search.meets_unlessStopped
    · intro stopped
      exact .of_ok serves (fun forced => absurd stopped (ne_true_of_eq_false forced.2)) nofun
    · intro _
      rw [bound]
      refine meets_draw serves (fun narrow q after serves whole => ?_)
        fun wide after serves => .of_refused serves wide trivial
      have rest {n : Nat} {after : Arena} (serves : after.Serves arm checker) (found : Bool) :
          (reachRegion p start region left found).Meets stops n after fun result _ last =>
            Refusal arm checker True (left + 1 ≠ 0 ∧ stops asked = false) result last :=
        (ih serves found).mono fun _ _ _ refusal => refusal.of_narrow narrow
      refine meets_check serves whole fun valid checked serves placed _ => ?_
      cases valid with
      | false => exact rest serves found
      | true =>
        apply Search.meets_endEffector
        cases inside : region.contains checked.arm.endEffector with
        | false => exact rest serves found
        | true =>
          refine Search.meets_bind (connect_meets bound serves fits whole) ?_ ?_
          · intro result n last refusal
            cases result with
            | error reason =>
              cases reason with
              | exhausted => exact rest refusal.serves true
              | _ => exact Search.meets_pure (refusal.of_narrow narrow)
            | ok t => exact Search.meets_pure (refusal.of_narrow narrow)
          · intro panic n last refusal
            exact absurd (refusal.crashes panic.message rfl).2.1 narrow

/-- What a search comes to for a problem on an arm. -/
theorem search_meets (serves : arena.Serves arm checker) (problem : Problem) :
    (search p problem).Meets stops asked arena fun result _ after =>
      Refusal arm checker
        (Steady stops → problem.NeedsDraw arm checker p.settings.resolution)
        ((∀ n, stops n = false) ∧ (p.settings.maxAttempts ≠ 0 ∧ p.settings.goalSamples ≠ 0) ∧
          problem.NeedsDraw arm checker p.settings.resolution)
        result after := by
  apply Search.meets_dof
  rw [serves.dof]
  by_cases fits : problem.start.length = arm.dof
  · simp only [fits, ne_eq, not_true_eq_false, if_false]
    refine meets_check serves fits fun valid checked serves placed begins => ?_
    cases valid with
    | false =>
      refine Search.meets_pure (.of_ok serves ?_ (by rintro _ ⟨⟩))
      rintro ⟨-, -, needs⟩
      exact absurd (begins.mpr needs.standsAt) Bool.false_ne_true
    | true =>
      cases problem with
      | toConfiguration start goal =>
        simp only [Bool.not_true, Bool.false_eq_true, if_false]
        by_cases same : goal.length = arm.dof
        · rw [if_neg (not_not_intro same)]
          refine meets_check serves same fun valid checked serves _ reaches => ?_
          cases valid with
          | false =>
            refine Search.meets_pure (.of_ok serves (fun forced => ?_) (by rintro _ ⟨⟩))
            exact absurd (reaches.mpr forced.2.2.2.1) Bool.false_ne_true
          | true =>
            simp only [Bool.not_true, Bool.false_eq_true, if_false]
            split
            next there =>
              refine Search.meets_pure (.of_ok serves (fun forced => ?_) (by rintro _ ⟨⟩))
              exact absurd there (ne_true_of_eq_false forced.2.2.2.2.1)
            next away =>
              refine (connect_meets bound serves fits same).mono fun _ _ _ refusal => ?_
              refine refusal.mono (fun apart steady => ?_) fun forced =>
                ⟨forced.1, forced.2.1.1, forced.2.2.2.2.2⟩
              exact ⟨begins.mp rfl, reaches.mp rfl, Bool.eq_false_iff.mpr away, apart steady⟩
        · rw [if_pos same]
          refine Search.meets_pure (.of_ok serves ?_ (by rintro _ ⟨⟩))
          exact fun forced => same forced.2.2.2.1.1
      | toRegion start region =>
        simp only [Bool.not_true, Bool.false_eq_true, if_false]
        apply Search.meets_endEffector
        rw [placed]
        split
        next inside =>
          refine Search.meets_pure (.of_ok serves (fun forced => ?_) (by rintro _ ⟨⟩))
          exact absurd inside (ne_true_of_eq_false forced.2.2.2)
        next outside =>
          refine (reachRegion_meets bound serves fits region _ _).mono
            fun _ _ _ refusal => ?_
          exact refusal.mono (fun _ _ => ⟨begins.mp rfl, Bool.eq_false_iff.mpr outside⟩)
            fun forced => ⟨forced.2.1.2, forced.1 _⟩
  · rw [if_pos fits]
    refine Search.meets_pure (.of_ok serves ?_ (by rintro _ ⟨⟩))
    exact fun forced => fits forced.2.2.standsAt.1

end Planner

end Search

end MotionRace
