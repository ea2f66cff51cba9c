import MotionRace.Pool.Worker

/-!
# How a race ends
-/

namespace MotionRace

/-- The outcome of a race that took place. -/
inductive Outcome (α : Type) where
  /-- A worker succeeded; the others were asked to stop. -/
  | succeeded (worker : Nat) (artifact : α)
  /-- Every launched worker failed. -/
  | allFailed
  /-- No worker took the problem on; nothing was launched. -/
  | noneEligible
  /-- The race was called off. -/
  | aborted
  deriving Repr, BEq, DecidableEq

namespace Outcome

variable {α : Type}

def isSuccess : Outcome α → Bool
  | .succeeded .. => true
  | _ => false

/-- A short name, for reports. -/
def label : Outcome α → String
  | .succeeded .. => "succeeded"
  | .allFailed => "all_failed"
  | .noneEligible => "none_eligible"
  | .aborted => "aborted"

/-- One line on the outcome. -/
def summary : Outcome α → String
  | .succeeded worker _ => s!"solved by worker {worker}"
  | .allFailed => "every worker failed"
  | .noneEligible => "no worker accepts this problem"
  | .aborted => "aborted"

end Outcome

/-- How a call for a race comes back: with an outcome, refused, or not at all because foreign code
panicked in it. -/
inductive Ending (α : Type) where
  | outcome (outcome : Outcome α)
  | refused (error : RaceError)
  | panicked (panic : Panic)
  deriving Repr, BEq, DecidableEq

end MotionRace
