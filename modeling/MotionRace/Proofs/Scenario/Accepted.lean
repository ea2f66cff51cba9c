import MotionRace.Scenario.Check

/-!
# What an accepted scenario has

The check of a scenario and the copy of an arm look at the same joints by rules of their own. Here
the check is taken apart once: what it accepts is a scenario whose arm can be copied, whose seeds
pair with its workers and whose problem has a value for every joint.

The one thing that the copy asks for and the check never says is that a joint stands at a finite
position. It follows, because a float between two finite floats is finite.

Main statement: `accepted_of_check`.
-/

namespace MotionRace

/-! ## Floats -/

/-- A float between two finite floats is finite. -/
theorem isFinite_of_between {lower upper x : Float} (first : lower.isFinite = true)
    (last : upper.isFinite = true) (above : lower ≤ x) (below : x ≤ upper) :
    x.isFinite = true := by
  change lower.toModel.unpack.isFinite = true at first
  change upper.toModel.unpack.isFinite = true at last
  change x.toModel.unpack.isFinite = true
  replace above : lower.toModel.unpack.le x.toModel.unpack = true := of_decide_eq_true above
  replace below : x.toModel.unpack.le upper.toModel.unpack = true := of_decide_eq_true below
  generalize lower.toModel.unpack = lower at first above
  generalize upper.toModel.unpack = upper at last below
  generalize x.toModel.unpack = x at above below ⊢
  cases x with
  | zero | finite => rfl
  | notANumber => cases upper <;> cases below
  | infinity sign =>
    -- No finite float is above the positive infinity, and none below the negative one.
    cases sign with
    | positive =>
      cases upper with
      | zero | finite => cases below
      | _ => cases last
    | negative =>
      cases lower with
      | zero sign => cases sign <;> cases above
      | finite sign => cases sign <;> cases above
      | _ => cases first

/-- A positive float is not negative. -/
theorem not_lt_zero_of_pos {x : Float} (pos : 0 < x) : ¬ x < 0 := by
  intro neg
  replace pos : (0 : Float).toModel.unpack.lt x.toModel.unpack = true := of_decide_eq_true pos
  replace neg : x.toModel.unpack.lt (0 : Float).toModel.unpack = true := of_decide_eq_true neg
  have zero : (0 : Float).toModel.unpack = .zero .positive := rfl
  rw [zero] at pos neg
  generalize x.toModel.unpack = x at pos neg
  cases x with
  | zero | notANumber => cases pos
  | infinity sign | finite sign =>
    cases sign with
    | positive => cases neg
    | negative => cases pos

/-! ## One check after another -/

section Checks

variable {ε : Type} {holds : Bool} {fault : ε} {first rest : Except ε Unit}

theorem require_eq_ok : require holds fault = .ok () ↔ holds = true := by
  cases holds with
  | true => exact iff_of_true rfl rfl
  | false => exact iff_of_false nofun nofun

/-- Two checks in a row pass if both do. -/
theorem then_eq_ok : (first >>= fun _ => rest) = .ok () ↔ first = .ok () ∧ rest = .ok () := by
  cases first with
  | ok => exact (and_iff_right rfl).symm
  | error e => exact iff_of_false nofun fun both => nomatch both.1

theorem eq_ok_of_isOk (passes : first.isOk = true) : first = .ok () := by
  cases first with
  | ok => rfl
  | error e => cases passes

theorem mapError_eq_ok {η : Type} {wrap : ε → η} :
    first.mapError wrap = .ok () ↔ first = .ok () := by
  cases first with
  | ok => exact iff_of_true rfl rfl
  | error e => exact iff_of_false nofun nofun

end Checks

/-! ## The arm -/

/-- A joint that passes the check is well made for a copy too. -/
theorem jointDefect?_of_check {joint : Joint} (checked : joint.check = .ok ()) :
    Arm.jointDefect? joint = none := by
  simp only [Joint.check, then_eq_ok, require_eq_ok, positive, Joint.withinLimits, Joint.contains,
    Bool.and_eq_true, decide_eq_true_eq, Bool.not_eq_true', decide_eq_false_iff_not] at checked
  obtain ⟨⟨length, long⟩, ⟨⟨lower, upper⟩, ordered⟩, above, below⟩ := checked
  have position := isFinite_of_between lower upper above below
  have short := not_lt_zero_of_pos long
  simp [Arm.jointDefect?, length, lower, upper, position, short, ordered]

/-- Joints that pass the check have no defect as a chain. -/
theorem chainDefect?_of_checkJoints {arm : String} {index : Nat} {seen : List String}
    {joints : List Joint} (checked : checkJoints index seen joints = .ok ()) :
    Arm.chainDefect? arm seen joints = none := by
  induction joints generalizing index seen with
  | nil => rfl
  | cons joint rest ih =>
    simp only [checkJoints, then_eq_ok, require_eq_ok, Bool.not_eq_true'] at checked
    obtain ⟨new, well, others⟩ := checked
    simp only [Arm.chainDefect?, new, jointDefect?_of_check well, ih others]
    rfl

/-! ## The scenario -/

/-- What an accepted scenario has. -/
structure Scenario.Accepted (s : Scenario) : Prop where
  workers : s.race.workers ≠ 0
  /-- The seeds pair with the workers, if there are any. -/
  seeds : s.race.resolvedSeeds = [] ∨ s.race.resolvedSeeds.length = s.race.workers
  joints : s.world.joints ≠ []
  wellFormed : s.arm.validate = .ok ()
  resolution : Settings.usable s.solver.resolution = true
  attempts : s.solver.maxAttempts ≠ 0
  goalSamples : s.solver.goalSamples ≠ 0
  start : s.problem.start.length = s.world.joints.length
  goal : ∀ start goal, s.problem = .toConfiguration start goal →
    goal.length = s.world.joints.length

/-- The seeds of settings that pass the check pair with the workers. -/
theorem resolvedSeeds_of_check {r : RaceSettings} (checked : r.check = .ok ()) :
    r.workers ≠ 0 ∧ (r.resolvedSeeds = [] ∨ r.resolvedSeeds.length = r.workers) := by
  simp only [RaceSettings.check, then_eq_ok, require_eq_ok, decide_eq_true_eq, Bool.or_eq_true,
    beq_iff_eq] at checked
  obtain ⟨staffed, paired⟩ := checked
  refine ⟨staffed, ?_⟩
  unfold RaceSettings.resolvedSeeds
  cases given : r.seeds.isEmpty with
  | false =>
    rw [given] at paired
    exact .inr (paired.resolve_left nofun)
  | true =>
    cases r.baseSeed with
    | none => exact .inl rfl
    | some base =>
      refine .inr ?_
      simp

theorem validate_of_check {s : Scenario} (checked : s.world.check = .ok ()) :
    s.world.joints ≠ [] ∧ s.arm.validate = .ok () := by
  simp only [WorldSettings.check, then_eq_ok, require_eq_ok, Bool.not_eq_true',
    List.isEmpty_eq_false_iff] at checked
  obtain ⟨jointed, base, -, joints⟩ := checked
  refine ⟨jointed, ?_⟩
  have whole : s.arm.defect? = none :=
    (if_pos base).trans (chainDefect?_of_checkJoints joints)
  simp only [Arm.validate, whole]

theorem lengths_of_check {p : Problem} {dof : Nat} (checked : p.check dof = .ok ()) :
    p.start.length = dof ∧ ∀ start goal, p = .toConfiguration start goal → goal.length = dof := by
  simp only [Problem.check, then_eq_ok, require_eq_ok, beq_iff_eq] at checked
  obtain ⟨fits, -, rest⟩ := checked
  refine ⟨fits, ?_⟩
  rintro start goal rfl
  simp only [then_eq_ok, require_eq_ok, beq_iff_eq] at rest
  exact rest.1

/-- What the check accepts is as it should be for a pool and a search. -/
theorem accepted_of_check {s : Scenario} (checked : s.check = .ok ()) : s.Accepted := by
  simp only [Scenario.check, then_eq_ok, mapError_eq_ok] at checked
  obtain ⟨race, world, -, solver, problem⟩ := checked
  obtain ⟨workers, seeds⟩ := resolvedSeeds_of_check race
  obtain ⟨joints, wellFormed⟩ := validate_of_check world
  obtain ⟨start, goal⟩ := lengths_of_check problem
  simp only [Settings.check, then_eq_ok, require_eq_ok, decide_eq_true_eq] at solver
  obtain ⟨resolution, attempts, goalSamples, -⟩ := solver
  exact ⟨workers, seeds, joints, wellFormed, resolution, attempts, goalSamples, start, goal⟩

end MotionRace
