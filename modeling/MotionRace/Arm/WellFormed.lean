import MotionRace.Arm.Basic
import MotionRace.Decimal.Text
import MotionRace.Failure

/-!
# Well-formed arms

Only a well-formed arm can be copied: its base is finite, its joint names differ, every number of a
joint is finite, no link has a negative length and no limits are the wrong way round. `validate`
reports the first defect in chain order.
-/

namespace MotionRace.Arm

/-- What keeps an arm from being well formed. -/
inductive Defect where
  | nonFiniteBase (arm : String)
  | duplicateJoint (arm joint : String)
  | nonFiniteValue (joint : String)
  | negativeLength (joint : String) (length : Float)
  | invertedLimits (joint : String) (lower upper : Float)
  deriving Repr

def Defect.message : Defect → String
  | .nonFiniteBase arm => s!"skeleton '{arm}' has a non-finite base"
  | .duplicateJoint arm joint => s!"skeleton '{arm}' has duplicate joint '{joint}'"
  | .nonFiniteValue joint => s!"joint '{joint}' has a non-finite value"
  | .negativeLength joint length =>
    let shown := Decimal.plain length
    s!"joint '{joint}' has negative length {shown}"
  | .invertedLimits joint lower upper =>
    let low := Decimal.plain lower
    let high := Decimal.plain upper
    s!"joint '{joint}' has inverted limits [{low}, {high}]"

/-- The first defect of one joint by itself. -/
def jointDefect? (j : Joint) : Option Defect :=
  if !([j.length, j.lower, j.upper, j.position].all Float.isFinite) then
    some (.nonFiniteValue j.name)
  else if j.length < 0 then some (.negativeLength j.name j.length)
  else if j.upper < j.lower then some (.invertedLimits j.name j.lower j.upper)
  else none

/-- The first defect of a chain whose earlier joints are named `seen`. A name used before is
reported ahead of anything else about its joint. -/
def chainDefect? (arm : String) (seen : List String) : List Joint → Option Defect
  | [] => none
  | j :: joints =>
    if seen.contains j.name then some (.duplicateJoint arm j.name)
    else match jointDefect? j with
      | some defect => some defect
      | none => chainDefect? arm (j.name :: seen) joints

/-- The first defect of an arm: its base, then its joints in order. -/
def defect? (arm : Arm) : Option Defect :=
  if arm.base.x.isFinite && arm.base.y.isFinite then chainDefect? arm.name [] arm.joints
  else some (.nonFiniteBase arm.name)

/-- Whether an arm is well formed, with the first defect if it is not. -/
def validate (arm : Arm) : Except CloneError Unit :=
  match arm.defect? with
  | some defect => .error (.malformed defect.message)
  | none => .ok ()

/-- An independent copy of a well-formed arm. -/
def copy (arm : Arm) : Except CloneError Arm := do
  arm.validate
  return { name := arm.name, base := arm.base, joints := arm.joints }

end MotionRace.Arm
