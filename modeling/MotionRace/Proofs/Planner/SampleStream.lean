import MotionRace.Proofs.Planner.Refusals

/-!
# The samples of a search

The stream of a planner stands for one row of configurations, which the draws of a search take one
after another: the via points of a connection, and the goal candidates of a region with the via
points of their connections between them. A search that is not asked to stop tries what it has drawn
as its budget allows, so its result and the draws that it used follow from the row.

Main statement: `search_follows_its_samples`.
-/

namespace MotionRace

open MotionRace.Geometry (Region)
open MotionRace.Random (WordStream)

namespace Random

/-- A stream after so many draws. -/
def afterDraws (limits : List (Float × Float)) (stream : WordStream) : (draws : Nat) → WordStream
  | 0 => stream
  | draws + 1 => (drawAll limits (afterDraws limits stream draws)).2

/-- The configuration of a draw, by its number. A draw that is refused has none. -/
def sampleAt (limits : List (Float × Float)) (stream : WordStream) (draw : Nat) : Configuration :=
  match (drawAll limits (afterDraws limits stream draw)).1 with
  | .ok q => q
  | .error _ => []

/-- Where no range is refused, each draw is that of its number. -/
theorem drawAll_afterDraws {limits : List (Float × Float)}
    (narrow : ¬ ∃ limit ∈ limits, TooWide limit) (stream : WordStream) (draw : Nat) :
    drawAll limits (afterDraws limits stream draw) =
      (.ok (sampleAt limits stream draw), afterDraws limits stream (draw + 1)) := by
  rcases drawAll_cases limits (afterDraws limits stream draw) with ⟨wide, -⟩ | ⟨-, q, after, drawn⟩
  · exact absurd wide narrow
  · rw [sampleAt, afterDraws, drawn]

end Random

instance (limit : Float × Float) : Decidable (Random.TooWide limit) :=
  inferInstanceAs (Decidable (_ ∧ _))

instance (arm : Arm) : Decidable arm.TooWide :=
  inferInstanceAs (Decidable (∃ limit ∈ arm.limits, Random.TooWide limit))

instance (arm : Arm) (checker : ObstacleChecker) (q : Configuration) :
    Decidable (arm.StandsAt checker q) :=
  inferInstanceAs (Decidable (_ ∧ _ ∧ _))

/-! ## What the samples lead to -/

/-- What the result of a search follows from: an arm with its checker, the settings, and the row of
samples. -/
structure Sampled where
  arm : Arm
  checker : ObstacleChecker
  settings : Settings
  sample : Nat → Configuration

/-- What a planner works from on an arm. -/
def Planner.sampled (p : Planner) (arm : Arm) (checker : ObstacleChecker) : Sampled where
  arm
  checker
  settings := p.settings
  sample := Random.sampleAt p.limits p.stream

namespace Sampled

/-- Whether the arm stands validly along a segment. -/
def Along (s : Sampled) (a b : Configuration) : Prop :=
  s.arm.StandsAlong s.checker s.settings.resolution a b

/-- Whether a via point joins two configurations. -/
def Joins (s : Sampled) (start goal via : Configuration) : Prop :=
  s.arm.StandsAt s.checker via ∧ s.Along start via ∧ s.Along via goal

/-- How two configurations are joined with so many samples, of which the first has a number: through
the first sample that joins them. The last number is that of the sample that comes next then. -/
inductive Detours (s : Sampled) (start goal : Configuration) (attempts first : Nat) :
    Except SolveFailure Trajectory → Nat → Prop where
  | through {i : Nat} (within : i < attempts) (joins : s.Joins start goal (s.sample (first + i)))
      (before : ∀ j < i, ¬ s.Joins start goal (s.sample (first + j))) :
      Detours s start goal attempts first (.ok ⟨[start, s.sample (first + i), goal]⟩)
        (first + i + 1)
  | exhausted (apart : ∀ j < attempts, ¬ s.Joins start goal (s.sample (first + j))) :
      Detours s start goal attempts first (.error .exhausted) (first + attempts)

/-- How two configurations are connected when the sample of number `first` comes next: directly if
that segment is valid, else through a via point. -/
inductive Connects (s : Sampled) (start goal : Configuration) (first : Nat) :
    Except SolveFailure Trajectory → Nat → Prop where
  | directly (along : s.Along start goal) : Connects s start goal first (.ok ⟨[start, goal]⟩) first
  | indirectly {result : Except SolveFailure Trajectory} {next : Nat}
      (blocked : ¬ s.Along start goal)
      (detours : s.Detours start goal s.settings.maxAttempts first result next) :
      Connects s start goal first result next

/-- Whether a sample is a goal for a region: the arm stands validly there and its end effector is in
the region. -/
def Reaches (s : Sampled) (region : Region Float) (n : Nat) : Prop :=
  s.arm.StandsAt s.checker (s.sample n) ∧
    region.contains (s.arm.setPositions (s.sample n)).endEffector = true

instance (s : Sampled) (region : Region Float) (n : Nat) : Decidable (s.Reaches region n) :=
  inferInstanceAs (Decidable (_ ∧ _))

/-- The number of the sample that is goal candidate `i`, when the first candidate is the sample of
number `first`. A candidate that is a goal is followed by the samples of its connection. -/
def candidate (s : Sampled) (region : Region Float) : (first i : Nat) → Nat
  | first, 0 => first
  | first, i + 1 =>
    let used := if s.Reaches region first then s.settings.maxAttempts else 0
    s.candidate region (first + 1 + used) i

/-- Whether a goal candidate is of no use: it is no goal, or the start is not connected to it. -/
def Fails (s : Sampled) (start : Configuration) (region : Region Float) (first i : Nat) : Prop :=
  s.Reaches region (s.candidate region first i) →
    s.Connects start (s.sample (s.candidate region first i)) (s.candidate region first i + 1)
      (.error .exhausted) (s.candidate region first (i + 1))

/-- How a region is reached with so many candidates, of which the first is the sample of number
`first`: by the first candidate that is a goal and that the start is connected to. If there is none,
the failure is the given one when no candidate was a goal. -/
inductive Attains (s : Sampled) (start : Configuration) (region : Region Float)
    (missed : SolveFailure) (candidates first : Nat) :
    Except SolveFailure Trajectory → Nat → Prop where
  | joined {i next : Nat} {t : Trajectory} (within : i < candidates)
      (reaches : s.Reaches region (s.candidate region first i))
      (connects : s.Connects start (s.sample (s.candidate region first i))
        (s.candidate region first i + 1) (.ok t) next)
      (before : ∀ j < i, s.Fails start region first j) :
      Attains s start region missed candidates first (.ok t) next
  | exhausted {i : Nat} (within : i < candidates)
      (reaches : s.Reaches region (s.candidate region first i))
      (fails : ∀ j < candidates, s.Fails start region first j) :
      Attains s start region missed candidates first (.error .exhausted)
        (s.candidate region first candidates)
  | missed (unreached : ∀ i < candidates, ¬ s.Reaches region (first + i)) :
      Attains s start region missed candidates first (.error missed) (first + candidates)

section Detours

variable {s : Sampled} {start goal : Configuration} {left first next : Nat}
  {result : Except SolveFailure Trajectory}

/-- A sample that joins nothing is passed. -/
theorem Detours.skip (apart : ¬ s.Joins start goal (s.sample first))
    (detours : s.Detours start goal left (first + 1) result next) :
    s.Detours start goal (left + 1) first result next := by
  have shift (i : Nat) : first + 1 + i = first + (i + 1) := by omega
  have passed {i : Nat} (before : ∀ j < i, ¬ s.Joins start goal (s.sample (first + 1 + j))) :
      ∀ j < i + 1, ¬ s.Joins start goal (s.sample (first + j)) := by
    intro j within
    cases j with
    | zero => exact apart
    | succ j => exact shift j ▸ before j (Nat.lt_of_succ_lt_succ within)
  cases detours with
  | through within joins before =>
    rw [shift] at joins ⊢
    exact .through (Nat.succ_lt_succ within) joins (passed before)
  | exhausted apart =>
    rw [shift]
    exact .exhausted (passed apart)

theorem Connects.ok_or_exhausted (connects : s.Connects start goal first result next) :
    (∃ t, result = .ok t) ∨ result = .error .exhausted := by
  cases connects with
  | directly => exact .inl ⟨_, rfl⟩
  | indirectly _ detours =>
    cases detours with
    | through => exact .inl ⟨_, rfl⟩
    | exhausted => exact .inr rfl

/-- What is not joined has used all its samples. -/
theorem Connects.next_of_exhausted
    (connects : s.Connects start goal first (.error .exhausted) next) :
    next = first + s.settings.maxAttempts := by
  cases connects with
  | indirectly _ detours =>
    cases detours with
    | exhausted => rfl

end Detours

section Attains

variable {s : Sampled} {start : Configuration} {region : Region Float} {missed other : SolveFailure}
  {left first second next : Nat} {result : Except SolveFailure Trajectory}

theorem candidate_succ_of_not (falls : ¬ s.Reaches region first) (i : Nat) :
    s.candidate region first (i + 1) = s.candidate region (first + 1) i := by
  rw [candidate, if_neg falls, Nat.add_zero]

theorem candidate_succ_of (reaches : s.Reaches region first) (i : Nat) :
    s.candidate region first (i + 1) =
      s.candidate region (first + 1 + s.settings.maxAttempts) i := by
  rw [candidate, if_pos reaches]

/-- As long as no sample is a goal each is a candidate. -/
theorem candidate_of_none (unreached : ∀ i < left, ¬ s.Reaches region (first + i)) {i : Nat}
    (within : i ≤ left) : s.candidate region first i = first + i := by
  induction i generalizing first left with
  | zero => rfl
  | succ i ih =>
    cases left with
    | zero => omega
    | succ left =>
      have falls : ¬ s.Reaches region first := unreached 0 (Nat.succ_pos left)
      rw [candidate_succ_of_not falls]
      have later : ∀ j < left, ¬ s.Reaches region (first + 1 + j) := by
        intro j before
        rw [Nat.add_right_comm, Nat.add_assoc]
        exact unreached (j + 1) (Nat.succ_lt_succ before)
      rw [ih later (Nat.le_of_succ_le_succ within), Nat.add_right_comm, Nat.add_assoc]

/-- When the first candidate is of no use, what follows from the others follows from all. -/
theorem Attains.later (shift : ∀ i, s.candidate region first (i + 1) = s.candidate region second i)
    (useless : s.Fails start region first 0)
    (attains : s.Attains start region other left second result next)
    (lost : (∀ i < left, ¬ s.Reaches region (second + i)) →
      s.Attains start region missed (left + 1) first (.error other) (second + left)) :
    s.Attains start region missed (left + 1) first result next := by
  have before {i : Nat} (before : ∀ j < i, s.Fails start region second j) :
      ∀ j < i + 1, s.Fails start region first j := by
    intro j within
    cases j with
    | zero => exact useless
    | succ j =>
      have fails := before j (Nat.lt_of_succ_lt_succ within)
      simpa only [Fails, shift] using fails
  cases attains with
  | joined within reaches connects useless =>
    rw [← shift] at reaches connects
    exact .joined (Nat.succ_lt_succ within) reaches connects (before useless)
  | exhausted within reaches useless =>
    rw [← shift] at reaches ⊢
    exact .exhausted (Nat.succ_lt_succ within) reaches (before useless)
  | missed unreached => exact lost unreached

/-- A candidate that is no goal is passed. -/
theorem Attains.skip (falls : ¬ s.Reaches region first)
    (attains : s.Attains start region missed left (first + 1) result next) :
    s.Attains start region missed (left + 1) first result next := by
  refine attains.later (candidate_succ_of_not falls) (fun reaches => absurd reaches falls) ?_
  intro unreached
  rw [Nat.add_right_comm, Nat.add_assoc]
  refine .missed fun i within => ?_
  cases i with
  | zero => exact falls
  | succ i =>
    have later := unreached i (Nat.lt_of_succ_lt_succ within)
    rwa [Nat.add_right_comm, Nat.add_assoc] at later

/-- A candidate that is a goal, but that the start is not connected to, is passed with the samples
of its connection. Then the search is exhausted if it fails. -/
theorem Attains.retry (reaches : s.Reaches region first)
    (apart : s.Connects start (s.sample first) (first + 1) (.error .exhausted)
      (first + 1 + s.settings.maxAttempts))
    (attains : s.Attains start region .exhausted left (first + 1 + s.settings.maxAttempts) result
      next) :
    s.Attains start region missed (left + 1) first result next := by
  have useless : s.Fails start region first 0 := by
    intro _
    rw [candidate_succ_of reaches]
    exact apart
  refine attains.later (candidate_succ_of reaches) useless fun unreached => ?_
  have last := candidate_of_none unreached (Nat.le_refl left)
  rw [← last, ← candidate_succ_of reaches]
  refine .exhausted (i := 0) (Nat.succ_pos left) reaches fun j within => ?_
  cases j with
  | zero => exact useless
  | succ j =>
    intro also
    rw [candidate_succ_of reaches, candidate_of_none unreached (by omega)] at also
    exact absurd also (unreached j (Nat.lt_of_succ_lt_succ within))

end Attains

end Sampled

/-! ## What a search does with its samples -/

/-- An arena for an arm, after so many draws from a stream. -/
structure Arena.Drew (arena : Arena) (arm : Arm) (checker : ObstacleChecker) (stream : WordStream)
    (draws : Nat) : Prop where
  serves : arena.Serves arm checker
  stream_eq : arena.stream = Random.afterDraws arm.limits stream draws

/-- What a search came to, when it and the draws that it used follow from the samples. -/
def Arena.Ends (after : Arena) (arm : Arm) (checker : ObstacleChecker) (stream : WordStream)
    (follows : Except SolveFailure Trajectory → Nat → Prop)
    (result : Except Panic (Except SolveFailure Trajectory)) : Prop :=
  ∃ found next, result = .ok found ∧ follows found next ∧ after.Drew arm checker stream next

theorem Arena.Ends.mono {after : Arena} {arm : Arm} {checker : ObstacleChecker}
    {stream : WordStream} {follows weaker : Except SolveFailure Trajectory → Nat → Prop}
    {result : Except Panic (Except SolveFailure Trajectory)}
    (ends : after.Ends arm checker stream follows result)
    (weaken : ∀ found next, follows found next → weaker found next) :
    after.Ends arm checker stream weaker result := by
  obtain ⟨found, next, same, follows, drew⟩ := ends
  exact ⟨found, next, same, weaken found next follows, drew⟩

section Search

variable {arm : Arm} {checker : ObstacleChecker} {stream : WordStream} {draws : Nat} {arena : Arena}
  {a b q start goal : Configuration} {β : Type} {stops : Nat → Bool} {asked : Nat}
  {last : Except Panic β → Nat → Arena → Prop}

/-- A check of a state goes on as the state is valid or not. -/
theorem Arena.Drew.meets_check {f : Bool → Search β} (drew : arena.Drew arm checker stream draws)
    (fits : q.length = arm.dof)
    (stands : arm.StandsAt checker q → ∀ after, after.Drew arm checker stream draws →
      after.arm = arm.setPositions q → (f true).Meets stops asked after last)
    (falls : ¬ arm.StandsAt checker q → ∀ after, after.Drew arm checker stream draws →
      (f false).Meets stops asked after last) :
    (Search.stateValid q >>= f).Meets stops asked arena last := by
  apply Search.meets_stateValid
  rw [drew.serves.placed q fits, drew.serves.accepts_eq]
  have still : Arena.Drew { arena with
      arm := arm.setPositions q
      checker := { arena.checker with checks := arena.checker.checks + 1 } }
      arm checker stream draws := by
    refine ⟨⟨Arm.dof_setPositions arm q, fun other whole => ?_, drew.serves.obstacles,
      drew.serves.margin⟩, drew.stream_eq⟩
    exact Arm.setPositions_setPositions whole q
  cases valid : checker.accepts (arm.setPositions q) with
  | true => exact stands ((Arm.standsAt_iff fits).mp valid) _ still rfl
  | false =>
    refine falls (fun stands => ?_) _ still
    exact absurd ((Arm.standsAt_iff fits).mpr stands) (ne_true_of_eq_false valid)

/-- A draw yields the sample of its number. -/
theorem Arena.Drew.meets_sample {f : Configuration → Search β} (narrow : ¬ arm.TooWide)
    (drew : arena.Drew arm checker stream draws)
    (goesOn : ∀ after, after.Drew arm checker stream (draws + 1) →
      (Random.sampleAt arm.limits stream draws).length = arm.dof →
      (f (Random.sampleAt arm.limits stream draws)).Meets stops asked after last) :
    (Search.sample arm.limits >>= f).Meets stops asked arena last := by
  have drawn := Random.drawAll_afterDraws narrow stream draws
  rw [← drew.stream_eq] at drawn
  refine Search.meets_bind (Search.meets_sample fun result after found => ?_ :
    Search.Meets _ _ _ _ fun result n after =>
      result = .ok (Random.sampleAt arm.limits stream draws) ∧ n = asked ∧
        after.Drew arm checker stream (draws + 1)) ?_ ?_
  · cases drawn.symm.trans found
    exact ⟨rfl, rfl, ⟨drew.serves.dof, drew.serves.placed, drew.serves.obstacles,
      drew.serves.margin⟩, rfl⟩
  · rintro q n after ⟨same, rfl, drew⟩
    cases same
    refine goesOn after drew ?_
    rw [Random.length_drawAll drawn, Arm.limits, List.length_map, Arm.dof]
  · rintro p n after ⟨same, -⟩
    cases same

/-- A check of states takes nothing from the stream. -/
theorem checkStates_stream (steps left i : Nat) :
    (Planner.checkStates a b steps left i).Meets stops asked arena fun _ _ after =>
      after.stream = arena.stream := by
  induction left generalizing i asked arena with
  | zero => exact Search.meets_pure rfl
  | succ left ih =>
    refine Search.meets_unlessStopped (fun _ => rfl) fun _ => ?_
    cases interpolate a b (shareOf i steps) with
    | error p => exact rfl
    | ok q =>
      apply Search.meets_stateValid
      cases arena.checker.accepts (arena.arm.setPositions q) with
      | true => exact ih (i + 1)
      | false => exact Search.meets_pure rfl

/-- A search between a valid start and a valid goal that is not the start goes on to connect
them. -/
theorem Arena.Drew.meets_configuration {p : Planner}
    {last : Except Panic (Except SolveFailure Trajectory) → Nat → Arena → Prop}
    (drew : arena.Drew arm checker stream draws) (begins : arm.StandsAt checker start)
    (reaches : arm.StandsAt checker goal) (apart : (distance start goal == 0) = false)
    (goesOn : ∀ after, after.Drew arm checker stream draws →
      (p.connect start goal).Meets stops asked after last) :
    (p.search (.toConfiguration start goal)).Meets stops asked arena last := by
  apply Search.meets_dof
  rw [drew.serves.dof]
  simp only [Problem.start, begins.1, ne_eq, not_true_eq_false, if_false]
  refine drew.meets_check begins.1 (fun _ after drew _ => ?_) fun falls => absurd begins falls
  simp only [Bool.not_true, Bool.false_eq_true, if_false, reaches.1, not_true_eq_false]
  refine drew.meets_check reaches.1 (fun _ after drew _ => ?_) fun falls => absurd reaches falls
  simp only [Bool.not_true, Bool.false_eq_true, if_false, apart]
  exact goesOn after drew

variable (unstopped : ∀ n, stops n = false)
include unstopped

/-- A check of a segment goes on as the segment is valid or not. -/
theorem Arena.Drew.meets_segment {f : Bool → Search β} {resolution : Float}
    (drew : arena.Drew arm checker stream draws) (fits : a.length = arm.dof)
    (also : b.length = arm.dof)
    (along : arm.StandsAlong checker resolution a b → ∀ n after,
      after.Drew arm checker stream draws → (f true).Meets stops n after last)
    (blocked : ¬ arm.StandsAlong checker resolution a b → ∀ n after,
      after.Drew arm checker stream draws → (f false).Meets stops n after last) :
    (Planner.segmentValid resolution a b >>= f).Meets stops asked arena last := by
  have states : (Planner.segmentValid resolution a b).Meets stops asked arena _ :=
    Planner.checkStates_meets drew.serves fits also _ _ 0
  have still : (Planner.segmentValid resolution a b).Meets stops asked arena _ :=
    checkStates_stream _ _ 0
  have settled := (Planner.segmentValid_yields drew.serves fits also resolution).meets
    (states.and still)
  refine Search.meets_bind settled ?_ ?_
  · rintro valid n after ⟨⟨⟨serves, -, _, same, fails⟩, stream⟩, found⟩
    obtain rfl := Except.ok.inj same
    have drew : after.Drew arm checker _ _ := ⟨serves, stream.trans drew.stream_eq⟩
    cases valid with
    | true => exact along ((found true rfl).2 rfl) n after drew
    | false =>
      refine blocked (fun stands => ?_) n after drew
      obtain ⟨j, -, below, falls⟩ := fails rfl fun k _ _ => unstopped k
      exact falls (stands j (by omega))
  · rintro p n after ⟨⟨⟨-, -, _, same, -⟩, -⟩, -⟩
    cases same

namespace Planner

variable {p : Planner} (bound : p.limits = arm.limits) (narrow : ¬ arm.TooWide)
include bound narrow

/-- Via points are tried in the order of the samples. -/
theorem tryVias_follows (drew : arena.Drew arm checker p.stream draws)
    (fits : start.length = arm.dof) (also : goal.length = arm.dof) (left : Nat) :
    (tryVias p start goal left).Meets stops asked arena fun result _ after =>
      after.Ends arm checker p.stream
        ((p.sampled arm checker).Detours start goal left draws) result := by
  induction left generalizing asked arena draws with
  | zero =>
    refine Search.meets_unlessStopped (fun stopped => ?_) fun _ => Search.meets_pure ?_
    · exact absurd stopped (ne_true_of_eq_false (unstopped asked))
    · exact ⟨_, _, rfl, .exhausted nofun, drew⟩
  | succ left ih =>
    refine Search.meets_unlessStopped (fun stopped => ?_) fun _ => ?_
    · exact absurd stopped (ne_true_of_eq_false (unstopped asked))
    rw [bound]
    refine drew.meets_sample narrow fun after drew whole => ?_
    have via : (p.sampled arm checker).sample draws =
        Random.sampleAt arm.limits p.stream draws := by
      rw [sampled, bound]
    have rest {n : Nat} {after : Arena} (drew : after.Drew arm checker p.stream (draws + 1))
        (apart : ¬ (p.sampled arm checker).Joins start goal
          (Random.sampleAt arm.limits p.stream draws)) :
        (tryVias p start goal left).Meets stops n after fun result _ last =>
          last.Ends arm checker p.stream
            ((p.sampled arm checker).Detours start goal (left + 1) draws) result := by
      refine (ih drew).mono fun result _ last ends => ends.mono fun found next detours => ?_
      exact detours.skip (via ▸ apart)
    refine drew.meets_check whole (fun stands after drew _ => ?_) fun falls after drew => ?_
    · refine drew.meets_segment unstopped fits whole (fun first n after drew => ?_)
        fun blocked n after drew => rest drew fun joins => blocked joins.2.1
      refine drew.meets_segment unstopped whole also (fun second n after drew => ?_)
        fun blocked n after drew => rest drew fun joins => blocked joins.2.2
      refine Search.meets_pure ⟨_, draws + 1, rfl, ?_, drew⟩
      rw [← via] at stands first second ⊢
      exact .through (i := 0) (Nat.succ_pos left) ⟨stands, first, second⟩ nofun
    · exact rest drew fun joins => falls joins.1

/-- A start and a goal are connected as the samples allow. -/
theorem connect_follows (drew : arena.Drew arm checker p.stream draws)
    (fits : start.length = arm.dof) (also : goal.length = arm.dof) :
    (connect p start goal).Meets stops asked arena fun result _ after =>
      after.Ends arm checker p.stream ((p.sampled arm checker).Connects start goal draws)
        result := by
  refine drew.meets_segment unstopped fits also (fun along n after drew => ?_)
    fun blocked n after drew => ?_
  · exact Search.meets_pure ⟨_, draws, rfl, .directly along, drew⟩
  · refine Search.meets_unlessStopped (fun stopped => ?_) fun _ => ?_
    · exact absurd stopped (ne_true_of_eq_false (unstopped n))
    refine (tryVias_follows unstopped bound narrow drew fits also _).mono fun _ _ _ ends => ?_
    exact ends.mono fun _ _ detours => .indirectly blocked detours

/-- Goal candidates are tried in the order of the samples. -/
theorem reachRegion_follows (drew : arena.Drew arm checker p.stream draws)
    (fits : start.length = arm.dof) (region : Region Float) (left : Nat) (found : Bool) :
    (reachRegion p start region left found).Meets stops asked arena fun result _ after =>
      after.Ends arm checker p.stream
        ((p.sampled arm checker).Attains start region
          (if found then .exhausted else .invalidGoal) left draws) result := by
  induction left generalizing asked arena draws found with
  | zero => exact Search.meets_pure ⟨_, _, rfl, .missed nofun, drew⟩
  | succ left ih =>
    refine Search.meets_unlessStopped (fun stopped => ?_) fun _ => ?_
    · exact absurd stopped (ne_true_of_eq_false (unstopped asked))
    rw [bound]
    refine drew.meets_sample narrow fun after drew whole => ?_
    have goal : (p.sampled arm checker).sample draws =
        Random.sampleAt arm.limits p.stream draws := by
      rw [sampled, bound]
    have skip {n : Nat} {after : Arena} (drew : after.Drew arm checker p.stream (draws + 1))
        (falls : ¬ (p.sampled arm checker).Reaches region draws) :
        (reachRegion p start region left found).Meets stops n after fun result _ last =>
          last.Ends arm checker p.stream
            ((p.sampled arm checker).Attains start region
              (if found then .exhausted else .invalidGoal) (left + 1) draws) result :=
      (ih drew found).mono fun _ _ _ ends => ends.mono fun _ _ attains => attains.skip falls
    refine drew.meets_check whole (fun stands after drew placed => ?_) fun falls after drew => ?_
    · apply Search.meets_endEffector
      rw [placed]
      cases inside : region.contains
          (arm.setPositions (Random.sampleAt arm.limits p.stream draws)).endEffector with
      | false =>
        refine skip drew fun reaches => ?_
        have there := reaches.2
        rw [goal] at there
        exact absurd there (ne_true_of_eq_false inside)
      | true =>
        have reaches : (p.sampled arm checker).Reaches region draws :=
          ⟨goal ▸ stands, goal ▸ inside⟩
        refine Search.meets_bind
          (connect_follows unstopped bound narrow drew fits whole) ?_ ?_
        · rintro result n after ⟨found, next, same, connects, drew⟩
          obtain rfl := Except.ok.inj same
          rw [← goal] at connects
          obtain ⟨t, rfl⟩ | rfl := connects.ok_or_exhausted
          · refine Search.meets_pure ⟨_, next, rfl, ?_, drew⟩
            exact .joined (i := 0) (Nat.succ_pos left) reaches connects nofun
          · have used := connects.next_of_exhausted
            subst used
            refine (ih drew true).mono fun _ _ _ ends => ends.mono fun _ _ attains => ?_
            exact attains.retry reaches connects
        · rintro panic n after ⟨_, _, same, -⟩
          cases same
    · exact skip drew fun reaches => falls (goal ▸ reaches.1)

variable (begins : arm.StandsAt checker start)
include begins

theorem search_configuration_follows (drew : arena.Drew arm checker p.stream 0)
    (reaches : arm.StandsAt checker goal) (apart : (distance start goal == 0) = false) :
    (search p (.toConfiguration start goal)).Meets stops asked arena fun result _ after =>
      after.Ends arm checker p.stream ((p.sampled arm checker).Connects start goal 0) result :=
  drew.meets_configuration begins reaches apart fun _ drew =>
    connect_follows unstopped bound narrow drew begins.1 reaches.1

theorem search_region_follows (drew : arena.Drew arm checker p.stream 0) {region : Region Float}
    (outside : region.contains (arm.setPositions start).endEffector = false) :
    (search p (.toRegion start region)).Meets stops asked arena fun result _ after =>
      after.Ends arm checker p.stream
        ((p.sampled arm checker).Attains start region .invalidGoal p.settings.goalSamples 0)
        result := by
  apply Search.meets_dof
  rw [drew.serves.dof]
  simp only [Problem.start, begins.1, ne_eq, not_true_eq_false, if_false]
  refine drew.meets_check begins.1 (fun _ after drew placed => ?_) fun falls => absurd begins falls
  simp only [Bool.not_true, Bool.false_eq_true, if_false]
  apply Search.meets_endEffector
  simp only [placed, outside, Bool.false_eq_true, if_false]
  exact reachRegion_follows unstopped bound narrow drew begins.1 region _ false

end Planner

end Search

/-- The search on an arm is complete for the row of samples that the stream of the planner stands
for. A start and a goal are connected directly if that segment is valid, and else through the first
sample that joins them; a region is reached by the first candidate that is a goal and that the start
is connected to, where all draws take the next sample of the row. The search fails when its budget
leaves nothing else, with all of it used. -/
theorem search_follows_its_samples {p : Planner} {arm : Arm} {checker : ObstacleChecker}
    {stops : Nat → Bool} {asked : Nat} {start : Configuration} (bound : p.limits = arm.limits)
    (narrow : ¬ arm.TooWide) (unstopped : ∀ n, stops n = false)
    (begins : arm.StandsAt checker start) :
    (∀ goal, arm.StandsAt checker goal → (distance start goal == 0) = false →
      ∃ found next after,
        ((p.solve (.toConfiguration start goal) arm checker).answers stops asked).1 =
          (.ok found, after) ∧
        (p.sampled arm checker).Connects start goal 0 found next ∧
        after.stream = Random.afterDraws arm.limits p.stream next) ∧
    ∀ region : Region Float, region.contains (arm.setPositions start).endEffector = false →
      ∃ found next after,
        ((p.solve (.toRegion start region) arm checker).answers stops asked).1 =
          (.ok found, after) ∧
        (p.sampled arm checker).Attains start region .invalidGoal p.settings.goalSamples 0 found
          next ∧
        after.stream = Random.afterDraws arm.limits p.stream next := by
  have fresh : Arena.Drew ⟨arm, checker, p.stream⟩ arm checker p.stream 0 :=
    ⟨serves_self arm checker p.stream, rfl⟩
  refine ⟨fun goal reaches apart => ?_, fun region outside => ?_⟩
  · have ends : (p.search (.toConfiguration start goal)).Meets stops asked _ _ :=
      Planner.search_configuration_follows unstopped bound narrow begins fresh reaches apart
    obtain ⟨found, next, same, connects, drew⟩ := ends
    exact ⟨found, next, _, Prod.ext same rfl, connects, drew.stream_eq⟩
  · have ends : (p.search (.toRegion start region)).Meets stops asked _ _ :=
      Planner.search_region_follows unstopped bound narrow begins fresh outside
    obtain ⟨found, next, same, attains, drew⟩ := ends
    exact ⟨found, next, _, Prod.ext same rfl, attains, drew.stream_eq⟩

/-- An arm of one joint that turns nine tenths of a radian either way. -/
def nineTenths : Arm :=
  { name := "arm", joints := [{ name := "j0", length := 1, lower := -0.9, upper := 0.9 }] }

theorem samples_for_nine_tenths :
    let p := eighths.bindTo nineTenths (.ofSeed 7)
    p.limits = nineTenths.limits ∧ ¬ nineTenths.TooWide ∧
    nineTenths.StandsAt { obstacles := [] } [0.3] ∧
    nineTenths.StandsAt { obstacles := [] } [0.9] ∧ (distance [0.3] [0.9] == 0) = false ∧
    ∃ found next after,
      ((p.solve (.toConfiguration [0.3] [0.9]) nineTenths { obstacles := [] }).answers
        (fun _ => false) 0).1 = (.ok found, after) ∧
      (p.sampled nineTenths { obstacles := [] }).Connects [0.3] [0.9] 0 found next ∧
      after.stream = Random.afterDraws nineTenths.limits p.stream next := by
  have narrow : ¬ nineTenths.TooWide := by decide +kernel
  have begins : nineTenths.StandsAt { obstacles := [] } [0.3] := by decide +kernel
  have reaches : nineTenths.StandsAt { obstacles := [] } [0.9] := by decide +kernel
  have apart : (distance [0.3] [0.9] == 0) = false := by decide +kernel
  exact ⟨rfl, narrow, begins, reaches, apart,
    (search_follows_its_samples rfl narrow (fun _ => rfl) begins).1 _ reaches apart⟩

end MotionRace
