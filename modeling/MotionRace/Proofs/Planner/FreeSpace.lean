import Mathlib.Data.List.Forall2
import MotionRace.Proofs.Binary64.Floats
import MotionRace.Proofs.Planner.SampleStream
import MotionRace.Proofs.Scenario.Accepted

/-!
# Moves in free space

Where there are no obstacles, only its limits keep an arm from standing somewhere. On the way from
`x` to `y` a joint is put at `x + (y - x) * t`, rounded after each operation. Rounding keeps the
order, so no such position lies outside of what `x` and the last one of them, `x + (y - x) * 1`,
have between them. Hence the last state decides on the whole way, however many steps it is cut into.

The last state is not the goal, though: the difference and the sum that lead to it are rounded, and
what comes out can lie beyond a limit that the goal respects. A straight move that ends on a limit
can so be turned down.

Main statement: `free_space_connection`.
-/

namespace MotionRace

open MotionRace.Binary64

/-! ## Shares of a way -/

/-- Whether a float is a share of a whole. -/
structure IsShare (t : Float) : Prop where
  finite : t.isFinite = true
  nonneg : 0 ≤ number t
  most : number t ≤ 1

/-- A share of a way leads to somewhere between the start and the end of the way. -/
theorem IsShare.number_mem {x d t : Float} (share : IsShare t)
    (last : (x + d * 1).isFinite = true) :
    (x + d * t).isFinite = true ∧
      number (x + d * t) ∈ Set.uIcc (number x) (number (x + d * 1)) := by
  obtain ⟨first, way⟩ := isFinite_of_add last
  have step := (isFinite_of_mul way).1
  -- The product with one is exact.
  have far : number (x + d * 1) = nearest (number x + number d) := by
    rw [number_add last, number_mul way, number_one, mul_one, nearest_number]
  have part := nearest_mul_mem (nearest_number d) share.nonneg share.most
  have move : (d * t).isFinite = true := by
    refine (isFinite_mul_iff step share.finite).mpr ?_
    have shorter := Set.abs_sub_left_of_mem_uIcc part
    rw [sub_zero, sub_zero] at shorter
    exact shorter.trans_lt (abs_number_lt d)
  rw [← number_mul move] at part
  have between := nearest_add_mem (nearest_number x) part
  rw [← far] at between
  have sum : (x + d * t).isFinite = true := by
    have inside := Set.ordConnected_Ioo.uIcc_subset (abs_lt.mp (abs_number_lt x))
      (abs_lt.mp (abs_number_lt (x + d * 1))) between
    exact (isFinite_add_iff first move).mpr (abs_lt.mpr inside)
  exact ⟨sum, (number_add sum).symm ▸ between⟩

theorem number_word {n : Nat} (few : n < 2 ^ 64) : number n.toUInt64.toFloat = nearest n := by
  rw [number_toFloat]
  congr 2
  exact UInt64.toNat_ofNat_of_lt' few

theorem nearest_pos {n : Nat} (positive : 1 ≤ n) : 0 < nearest n :=
  zero_lt_one.trans_le (nearest_one ▸ nearest_mono (by exact_mod_cast positive))

/-- The share of the way after some of the steps, rounded as it is. -/
theorem isShare_shareOf {i steps : Nat} (within : i ≤ steps) (positive : 1 ≤ steps)
    (few : steps < 2 ^ 64) :
    IsShare (shareOf i steps) ∧ number (shareOf i steps) = nearest (nearest i / nearest steps) := by
  have part := number_word (within.trans_lt few)
  have whole := number_word few
  have large := nearest_pos positive
  have nonneg : 0 ≤ nearest (nearest i / nearest steps) :=
    nearest_nonneg (div_nonneg (nearest_nonneg (Nat.cast_nonneg i)) large.le)
  have most : nearest (nearest i / nearest steps) ≤ 1 :=
    nearest_one ▸ nearest_mono ((div_le_one large).mpr (nearest_mono (Nat.cast_le.mpr within)))
  have small : |nearest (nearest i / nearest steps)| < 2 ^ 1024 := by
    rw [abs_of_nonneg nonneg]
    exact most.trans_lt (one_lt_pow₀ one_lt_two (by decide))
  have nonzero := whole.trans_ne large.ne'
  rw [← part, ← whole] at small nonneg most ⊢
  have share : number (shareOf i steps) = _ :=
    number_div (isFinite_toFloat _) (isFinite_toFloat _) nonzero small
  refine ⟨⟨?_, share ▸ nonneg, share ▸ most⟩, share⟩
  exact (isFinite_div_iff (isFinite_toFloat _) (isFinite_toFloat _) nonzero).mpr small

/-- All of the steps make the whole way. -/
theorem mul_shareOf_self {n : Nat} (positive : 1 ≤ n) (few : n < 2 ^ 64) (d : Float) :
    d * shareOf n n = d * 1 := by
  have share := (isShare_shareOf (le_refl n) positive few).2
  rw [div_self (nearest_pos positive).ne', nearest_one] at share
  have same : (shareOf n n).toModel.unpack = (1 : Float).toModel.unpack :=
    eq_of_value_eq (isCanonical _) (isCanonical _) (share.trans number_one.symm)
      (share.trans_ne one_ne_zero)
  -- A product depends on its parts only by what they are unpacked to.
  change (⟨.pack (.mul _ d.toModel.unpack (shareOf n n).toModel.unpack)⟩ : Float) = _
  rw [same]
  rfl

theorem one_le_stepCount (resolution span : Float) : 1 ≤ stepCount resolution span :=
  Nat.le_max_left _ _

theorem stepCount_lt (resolution span : Float) : stepCount resolution span < 2 ^ 64 := by
  refine Nat.max_lt.mpr ⟨by decide, ?_⟩
  simp only [ceilWord]
  split
  · exact (Nat.min_le_right _ _).trans_lt (by decide)
  · exact UInt64.toNat_lt _

/-! ## Limits -/

/-- Whether a joint has finite limits. -/
def Joint.Bounded (joint : Joint) : Prop :=
  joint.lower.isFinite = true ∧ joint.upper.isFinite = true

theorem Joint.bounded_of_jointDefect? {joint : Joint} (sound : Arm.jointDefect? joint = none) :
    joint.Bounded := by
  unfold Arm.jointDefect? at sound
  split at sound
  next => cases sound
  next finite =>
    simp only [Bool.not_eq_true', Bool.not_eq_false, List.all_cons, Bool.and_eq_true] at finite
    exact ⟨finite.2.1, finite.2.2.1⟩

theorem Arm.bounded_of_chainDefect? {name : String} {seen : List String} {joints : List Joint}
    (sound : chainDefect? name seen joints = none) : ∀ joint ∈ joints, joint.Bounded := by
  induction joints generalizing seen with
  | nil => exact nofun
  | cons joint joints ih =>
    simp only [chainDefect?] at sound
    split at sound
    next => cases sound
    next =>
      split at sound
      next => cases sound
      next first => exact List.forall_mem_cons.mpr ⟨joint.bounded_of_jointDefect? first, ih sound⟩

theorem Arm.bounded_of_validate {arm : Arm} (valid : arm.validate = .ok ()) :
    ∀ joint ∈ arm.joints, joint.Bounded := by
  unfold validate at valid
  split at valid
  next => cases valid
  next sound =>
    unfold defect? at sound
    split at sound
    · exact bounded_of_chainDefect? sound
    · cases sound

/-- A joint whose limits allow the start and the end of a way is within them all along. -/
theorem Joint.Bounded.contains_share {joint : Joint} {x d t : Float} (bounded : joint.Bounded)
    (begins : joint.contains x = true) (ends : joint.contains (x + d * 1) = true)
    (share : IsShare t) : joint.contains (x + d * t) = true := by
  obtain ⟨low, high⟩ := bounded
  simp only [contains, Bool.and_eq_true, decide_eq_true_eq] at begins ends ⊢
  have last := isFinite_of_between low high ends.1 ends.2
  have first := (isFinite_of_add last).1
  obtain ⟨sum, between⟩ := share.number_mem last
  have inside : number (x + d * t) ∈ Set.Icc (number joint.lower) (number joint.upper) := by
    refine Set.uIcc_subset_Icc ⟨?_, ?_⟩ ⟨?_, ?_⟩ between
    · exact (le_iff_number_le low first).mp begins.1
    · exact (le_iff_number_le first high).mp begins.2
    · exact (le_iff_number_le low last).mp ends.1
    · exact (le_iff_number_le last high).mp ends.2
  exact ⟨(le_iff_number_le low sum).mpr inside.1, (le_iff_number_le sum high).mpr inside.2⟩

/-- Whether a configuration has one position for each joint of an arm, within its limits. -/
def Arm.Contains (arm : Arm) (q : Configuration) : Prop :=
  List.Forall₂ (fun joint x => joint.contains x = true) arm.joints q

instance (arm : Arm) (q : Configuration) : Decidable (arm.Contains q) :=
  inferInstanceAs (Decidable (List.Forall₂ _ _ _))

theorem forall₂_contains_iff {joints : List Joint} {q : Configuration} :
    List.Forall₂ (fun joint x => joint.contains x = true) joints q ↔
      q.length = joints.length ∧ ∀ joint ∈ Arm.place joints q,
        joint.lower ≤ joint.position ∧ joint.position ≤ joint.upper := by
  induction joints generalizing q with
  | nil => cases q <;> simp [Arm.place]
  | cons joint joints ih =>
    cases q with
    | nil => simp
    | cons x q =>
      rw [List.forall₂_cons, ih, Arm.place, List.forall_mem_cons, List.length_cons,
        List.length_cons, Nat.succ_inj, Joint.contains, Bool.and_eq_true, decide_eq_true_eq,
        decide_eq_true_eq]
      exact and_left_comm

section FreeSpace

variable {arm : Arm} {checker : ObstacleChecker} {resolution : Float}
  {start goal : Configuration} {stops : Nat → Bool} {asked : Nat} {arena : Arena}

/-- Without obstacles only the limits count. -/
theorem standsAt_iff_contains (free : checker.obstacles = []) {q : Configuration} :
    arm.StandsAt checker q ↔ arm.Contains q := by
  rw [Arm.Contains, forall₂_contains_iff, Arm.StandsAt, free]
  exact and_congr_right fun _ => and_iff_left fun _ _ _ listed => absurd listed List.not_mem_nil

/-- An arm that is within its limits at both ends of a way is so all along. -/
theorem contains_between (bounded : ∀ joint ∈ arm.joints, joint.Bounded)
    (begins : arm.Contains start) (ends : arm.Contains (between start goal 1)) {t : Float}
    (share : IsShare t) : arm.Contains (between start goal t) := by
  unfold Arm.Contains at begins ends ⊢
  generalize arm.joints = joints at bounded begins ends ⊢
  induction begins generalizing goal with
  | nil => exact .nil
  | @cons joint x joints start first begins ih =>
    cases goal with
    | nil => cases ends
    | cons y goal =>
      obtain ⟨finite, bounded⟩ := List.forall_mem_cons.mp bounded
      obtain ⟨last, ends⟩ := List.forall₂_cons.mp ends
      exact .cons (finite.contains_share first last share) (ih bounded ends)

/-- The last state decides on a whole segment. -/
theorem standsAlong_iff_contains (bounded : ∀ joint ∈ arm.joints, joint.Bounded)
    (free : checker.obstacles = []) (begins : arm.Contains start) :
    arm.StandsAlong checker resolution start goal ↔ arm.Contains (between start goal 1) := by
  have positive := one_le_stepCount resolution (span start goal)
  have few := stepCount_lt resolution (span start goal)
  constructor
  · intro along
    have last := (standsAt_iff_contains free).mp (along _ (le_refl _))
    simpa only [between, mul_shareOf_self positive few] using last
  · intro ends i within
    have share := (isShare_shareOf within positive few).1
    exact (standsAt_iff_contains free).mpr (contains_between bounded begins ends share)

/-- A valid segment is the plan. -/
theorem search_meets_directly {p : Planner} (drew : arena.Drew arm checker p.stream 0)
    (unstopped : ∀ n, stops n = false) (begins : arm.StandsAt checker start)
    (reaches : arm.StandsAt checker goal) (apart : (distance start goal == 0) = false)
    (along : arm.StandsAlong checker p.settings.resolution start goal) :
    (p.search (.toConfiguration start goal)).Meets stops asked arena fun result _ _ =>
      result = .ok (.ok ⟨[start, goal]⟩) := by
  refine drew.meets_configuration begins reaches apart fun after drew => ?_
  refine drew.meets_segment unstopped begins.1 reaches.1 (fun _ _ _ _ => ?_) fun blocked => ?_
  · exact Search.meets_pure rfl
  · exact absurd along blocked

end FreeSpace

/-- In free space a planner that is not asked to stop joins a start and a goal directly exactly if
the last state on the way is within the limits. Then so are all the other states, however many steps
the resolution cuts the way into. -/
theorem free_space_connection {template : Planner} {arm : Arm} {stream : Random.WordStream}
    {checker : ObstacleChecker} {stops : Nat → Bool} {asked : Nat} {start goal : Configuration}
    (valid : arm.validate = .ok ()) (free : checker.obstacles = [])
    (unstopped : ∀ n, stops n = false) (begins : arm.Contains start) (reaches : arm.Contains goal)
    (apart : (distance start goal == 0) = false) :
    ((((template.bindTo arm stream).solve (.toConfiguration start goal) arm checker).answers stops
        asked).1.1 = .ok (.ok ⟨[start, goal]⟩) ↔ arm.Contains (between start goal 1)) ∧
    (arm.Contains (between start goal 1) → ∀ resolution : Float,
      let steps := stepCount resolution (span start goal)
      ∀ i ≤ steps, arm.Contains (between start goal (shareOf i steps))) := by
  have decides (resolution : Float) : arm.StandsAlong checker resolution start goal ↔
      arm.Contains (between start goal 1) :=
    standsAlong_iff_contains (Arm.bounded_of_validate valid) free begins
  refine ⟨⟨fun solved => ?_, fun ends => ?_⟩, fun ends resolution => ?_⟩
  · obtain ⟨-, found⟩ := Planner.search_yields (p := template.bindTo arm stream) rfl
      (serves_self arm checker stream) (.toConfiguration start goal) stops asked _ _
      (Prod.ext solved rfl)
    exact (decides _).mp ((found _ rfl).1.along (start, goal) List.mem_cons_self)
  · have fresh : Arena.Drew ⟨arm, checker, stream⟩ arm checker stream 0 :=
      ⟨serves_self arm checker stream, rfl⟩
    exact search_meets_directly fresh unstopped ((standsAt_iff_contains free).mpr begins)
      ((standsAt_iff_contains free).mpr reaches) apart ((decides _).mpr ends)
  · intro steps i within
    exact (standsAt_iff_contains free).mp ((decides resolution).mpr ends i within)

theorem straight_to_half_a_radian :
    let p := eighths.bindTo halfRadian (.ofSeed 7)
    halfRadian.validate = .ok () ∧ halfRadian.Contains [0] ∧ halfRadian.Contains [0.5] ∧
    (distance [0] [0.5] == 0) = false ∧
    ((p.solve (.toConfiguration [0] [0.5]) halfRadian { obstacles := [] }).answers
      (fun _ => false) 0).1.1 = .ok (.ok ⟨[[0], [0.5]]⟩) := by
  have valid : halfRadian.validate = .ok () := eq_ok_of_isOk (by decide +kernel)
  have begins : halfRadian.Contains [0] := by decide +kernel
  have reaches : halfRadian.Contains [0.5] := by decide +kernel
  have apart : (distance [0] [0.5] == 0) = false := by decide +kernel
  have last : halfRadian.Contains (between [0] [0.5] 1) := by decide +kernel
  exact ⟨valid, begins, reaches, apart,
    (free_space_connection valid rfl (fun _ => rfl) begins reaches apart).1.mpr last⟩

/-- A straight move to a limit that ends past it, so that the plan is a detour. -/
theorem detour_to_nine_tenths :
    let p := eighths.bindTo nineTenths (.ofSeed 7)
    nineTenths.validate = .ok () ∧ nineTenths.Contains [0.3] ∧ nineTenths.Contains [0.9] ∧
    (distance [0.3] [0.9] == 0) = false ∧
    ∃ t arena, ((p.solve (.toConfiguration [0.3] [0.9]) nineTenths { obstacles := [] }).answers
      (fun _ => false) 0).1 = (.ok (.ok t), arena) ∧ t ≠ ⟨[[0.3], [0.9]]⟩ := by
  have valid : nineTenths.validate = .ok () := eq_ok_of_isOk (by decide +kernel)
  have begins : nineTenths.Contains [0.3] := by decide +kernel
  have reaches : nineTenths.Contains [0.9] := by decide +kernel
  have apart : (distance [0.3] [0.9] == 0) = false := by decide +kernel
  have plans : ((((eighths.bindTo nineTenths (.ofSeed 7)).solve (.toConfiguration [0.3] [0.9])
      nineTenths { obstacles := [] }).answers (fun _ => false) 0).1.plan?.any
        fun plan => plan.1.waypoints.length == 3) = true := by
    decide +kernel
  obtain ⟨⟨t, arena⟩, found, three⟩ := (Option.any_eq_true _ _).mp plans
  refine ⟨valid, begins, reaches, apart, t, arena, eq_of_plan? found, ?_⟩
  rintro rfl
  cases three

end MotionRace
