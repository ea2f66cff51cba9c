import MotionRace.Arm.Obstacles

/-!
# One arm for obstacles and for goals

Obstacles are compared with the links between the frames of an arm, goal regions with its end
effector. The frames are a list that grows by a new point at each joint; the end effector is one
point that is taken along the chain. Both add up the same angles from the base on, so the end
effector of an arm that is cut after some joint is the frame there.

Floats are not looked into. That the two computations agree is the agreement of their operations,
one by one and in their order, and holds whatever a sine or a sum comes to.

Main statement: `links_end_at_endEffector`.
-/

namespace MotionRace

open MotionRace.Geometry (Point Circle)

namespace Arm

variable {arm : Arm}

/-! ## Frames -/

/-- The arm without the joints after the first `k`. -/
def cut (arm : Arm) (k : Nat) : Arm := { arm with joints := arm.joints.take k }

/-- A frame of a chain is where a point is after the joints before it. -/
theorem getElem?_framesFrom (p : Point Float) (angle : Float) {joints : List Joint} {k : Nat}
    (within : k ≤ joints.length) :
    (framesFrom p angle joints)[k]? = some ((joints.take k).foldl follow (p, angle)).1 := by
  induction joints generalizing p angle k with
  | nil =>
    obtain rfl : k = 0 := Nat.le_zero.mp within
    rfl
  | cons j joints ih =>
    cases k with
    | zero => rfl
    | succ k => exact ih _ _ (Nat.le_of_succ_le_succ within)

/-- A chain that is cut has the first of the frames. -/
theorem framesFrom_take (p : Point Float) (angle : Float) (joints : List Joint) (k : Nat) :
    framesFrom p angle (joints.take k) = (framesFrom p angle joints).take (k + 1) := by
  induction joints generalizing p angle k with
  | nil => simp [framesFrom]
  | cons j joints ih =>
    cases k with
    | zero => rfl
    | succ k => exact congrArg (p :: ·) (ih _ _ k)

/-- A frame is the end effector of the arm that is cut there. -/
theorem getElem?_frames {k : Nat} (within : k ≤ arm.dof) :
    arm.frames[k]? = some (arm.cut k).endEffector :=
  getElem?_framesFrom arm.base 0 within

theorem cut_dof (arm : Arm) : arm.cut arm.dof = arm := by
  simp [cut, dof]

theorem getLast?_frames (arm : Arm) : arm.frames.getLast? = some arm.endEffector := by
  rw [List.getLast?_eq_getElem?, length_frames, Nat.add_sub_cancel,
    getElem?_frames (Nat.le_refl arm.dof), cut_dof]

end Arm

/-! ## Links -/

namespace ObstacleChecker

variable {arm : Arm} {checker : ObstacleChecker}

/-- The links run from each frame to the next one. -/
theorem forall_links_iff (arm : Arm) (holds : Point Float → Point Float → Prop) :
    (∀ link ∈ links arm, holds link.1 link.2) ↔
      ∀ i (_ : i + 1 < arm.frames.length), holds arm.frames[i] arm.frames[i + 1] := by
  have count : (links arm).length = arm.frames.length - 1 := by
    simp [links]
  constructor
  · intro each i inside
    have here : i < (links arm).length := by omega
    have link := each _ (List.getElem_mem here)
    simpa only [links, List.getElem_zip, List.getElem_tail] using link
  · intro each link listed
    obtain ⟨i, here, rfl⟩ := List.getElem_of_mem listed
    have inside : i + 1 < arm.frames.length := by omega
    simpa only [links, List.getElem_zip, List.getElem_tail] using each i inside

/-- An arm is accepted if its joints are within their limits and none of its links hits anything. -/
theorem accepts_iff : checker.accepts arm = true ↔
    (∀ j ∈ arm.joints, j.lower ≤ j.position ∧ j.position ≤ j.upper) ∧
    ∀ link ∈ links arm, ∀ circle ∈ checker.obstacles,
      circle.hits link.1 link.2 checker.margin = false := by
  simp only [accepts, Bool.and_eq_true, Arm.withinLimits, List.all_eq_true, Joint.withinLimits,
    Joint.contains, decide_eq_true_eq, Bool.not_eq_true', collides, List.any_eq_false,
    Bool.not_eq_true]

/-- The frames of an arm begin with its base and end with its end effector, and an arm that is cut
has the first of them. A check accepts the arm exactly if its joints are within their limits and no
obstacle is hit between two frames in a row, and counts itself. -/
theorem links_end_at_endEffector (arm : Arm) (checker : ObstacleChecker) :
    arm.frames.length = arm.dof + 1 ∧
    arm.frames.head? = some arm.base ∧
    arm.frames.getLast? = some arm.endEffector ∧
    (∀ k, (arm.cut k).frames = arm.frames.take (k + 1)) ∧
    ((checker.check arm).1 = true ↔
      (∀ j ∈ arm.joints, j.lower ≤ j.position ∧ j.position ≤ j.upper) ∧
      ∀ i (_ : i + 1 < arm.frames.length), ∀ circle ∈ checker.obstacles,
        circle.hits arm.frames[i] arm.frames[i + 1] checker.margin = false) ∧
    (checker.check arm).2 = { checker with checks := checker.checks + 1 } := by
  have first : arm.frames.head? = some (arm.cut 0).endEffector := by
    rw [List.head?_eq_getElem?]
    exact Arm.getElem?_frames (Nat.zero_le _)
  refine ⟨Arm.length_frames arm, first, Arm.getLast?_frames arm, ?_, ?_, rfl⟩
  · intro k
    exact Arm.framesFrom_take arm.base 0 arm.joints k
  · exact accepts_iff.trans (and_congr_right' (forall_links_iff arm fun a b =>
      ∀ circle ∈ checker.obstacles, circle.hits a b checker.margin = false))

end ObstacleChecker

end MotionRace
