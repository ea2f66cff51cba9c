import MotionRace.Geometry.Segment
import MotionRace.Arm.Joint

/-!
# Planar serial arms

An arm is a chain of named revolute joints on a fixed base. Link angles add up along the chain, so
the frame of a joint sits at the end of the link before it.
-/

namespace MotionRace

open MotionRace.Geometry (Point)

/-- A planar serial arm. -/
structure Arm where
  name : String
  base : Point Float := ⟨0, 0⟩
  joints : List Joint
  deriving Repr, BEq

namespace Arm

/-- The arm with one joint per link length, named `j0`, `j1`, … and otherwise plain. -/
def planar (name : String) (lengths : List Float) : Arm where
  name
  joints := lengths.mapIdx fun i length => { name := s!"j{i}", length }

/-- The arm moved to another base. -/
def withBase (arm : Arm) (base : Point Float) : Arm := { arm with base }

/-- The number of joints. -/
def dof (arm : Arm) : Nat := arm.joints.length

/-- The first joint of a name. -/
def joint? (arm : Arm) (name : String) : Option Joint := arm.joints.find? (·.name == name)

def jointNames (arm : Arm) : List String := arm.joints.map (·.name)

/-- The lower and the upper limit of each joint. -/
def limits (arm : Arm) : List (Float × Float) := arm.joints.map fun j => (j.lower, j.upper)

def positions (arm : Arm) : List Float := arm.joints.map (·.position)

/-- Joints put at the given positions in chain order. Joints without a position stay where they
are, positions without a joint are dropped. -/
def place : List Joint → List Float → List Joint
  | j :: joints, q :: positions => { j with position := q } :: place joints positions
  | joints, _ => joints

/-- The arm with its first joints put at the given positions. -/
def setPositions (arm : Arm) (positions : List Float) : Arm :=
  { arm with joints := place arm.joints positions }

/-- Joints keep their number when they are put somewhere. -/
@[simp] theorem length_place (joints : List Joint) (positions : List Float) :
    (place joints positions).length = joints.length := by
  induction joints generalizing positions with
  | nil => cases positions <;> rfl
  | cons j joints ih =>
    cases positions with
    | nil => rfl
    | cons q positions => simp [place, ih]

@[simp] theorem dof_setPositions (arm : Arm) (positions : List Float) :
    (arm.setPositions positions).dof = arm.dof :=
  length_place arm.joints positions

/-- Joints keep what is not their position when they are put somewhere. -/
theorem map_place {β : Type} (f : Joint → β) (keeps : ∀ j q, f { j with position := q } = f j)
    (joints : List Joint) (positions : List Float) :
    (place joints positions).map f = joints.map f := by
  induction joints generalizing positions with
  | nil => cases positions <;> rfl
  | cons j joints ih =>
    cases positions with
    | nil => rfl
    | cons q positions => simp [place, ih, keeps]

@[simp] theorem limits_setPositions (arm : Arm) (positions : List Float) :
    (arm.setPositions positions).limits = arm.limits :=
  map_place (fun j => (j.lower, j.upper)) (fun _ _ => rfl) arm.joints positions

/-- Whether every joint stands within its limits. -/
def withinLimits (arm : Arm) : Bool := arm.joints.all Joint.withinLimits

/-- The point at the end of a link that starts at `p` and points along `angle`. -/
def linkEnd (p : Point Float) (angle length : Float) : Point Float :=
  ⟨p.x + length * angle.cos, p.y + length * angle.sin⟩

/-- The frames of a chain that starts at `p`, after links that turned by `angle` in all. -/
def framesFrom (p : Point Float) (angle : Float) : List Joint → List (Point Float)
  | [] => [p]
  | j :: joints =>
    let angle := angle + j.position
    p :: framesFrom (linkEnd p angle j.length) angle joints

/-- The position of every joint frame and, last, of the end effector. The base comes first. -/
def frames (arm : Arm) : List (Point Float) := framesFrom arm.base 0 arm.joints

@[simp] theorem length_framesFrom (p : Point Float) (angle : Float) (joints : List Joint) :
    (framesFrom p angle joints).length = joints.length + 1 := by
  induction joints generalizing p angle with
  | nil => rfl
  | cons j joints ih => simp [framesFrom, ih]

/-- There is one frame more than there are joints. -/
@[simp] theorem length_frames (arm : Arm) : arm.frames.length = arm.dof + 1 :=
  length_framesFrom arm.base 0 arm.joints

/-- A point taken along a link where it stands, one coordinate after the other, and the angle of
the link. -/
def follow : Point Float × Float → Joint → Point Float × Float
  | (p, angle), j =>
    let angle := angle + j.position
    let p := { p with x := p.x + j.length * angle.cos }
    let p := { p with y := p.y + j.length * angle.sin }
    (p, angle)

/-- The end of the last link, reached by taking one point along the links one after another. -/
def endEffector (arm : Arm) : Point Float := (arm.joints.foldl follow (arm.base, 0)).1

end Arm

end MotionRace
