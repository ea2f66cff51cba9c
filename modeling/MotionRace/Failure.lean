/-!
# What can go wrong

Four kinds of failure, from the outside in: a pool that cannot be built, a world or checker that
cannot be prepared for one worker, a race that is refused, and a single solve that finds nothing.
Each is a cause with a `name` for programs and a `message` for people. A panic is foreign code
giving up in the middle.
-/

namespace MotionRace

/-- Foreign code gave up. The message is what it said. -/
structure Panic where
  message : String
  deriving Repr, BEq, DecidableEq, Inhabited

/-- What a panic says when it carries no text. -/
def Panic.unknown : Panic := ⟨"unknown panic"⟩

/-- Reading past the end of a list. -/
def Panic.outOfRange (length index : Nat) : Panic :=
  ⟨s!"index out of bounds: the len is {length} but the index is {index}"⟩

/-- A world or a checker could not be prepared for one worker. -/
inductive CloneError where
  /-- The source world is in no state that can be copied. -/
  | malformed (reason : String)
  /-- The checker refused the world. -/
  | backendRejected (backend reason : String)
  deriving Repr, BEq, DecidableEq

def CloneError.name : CloneError → String
  | .malformed _ => "Malformed"
  | .backendRejected .. => "BackendRejected"

def CloneError.message : CloneError → String
  | .malformed reason => s!"world is malformed: {reason}"
  | .backendRejected backend reason => s!"backend '{backend}' rejected world: {reason}"

/-- A pool could not be built. -/
inductive ConfigurationError where
  | noBackends
  /-- Seeds were given and do not pair with the checkers one to one. -/
  | seedCountMismatch (backends seeds : Nat)
  /-- No worker could be prepared; `last` is what the last one failed of. -/
  | noWorkers (attempted : Nat) (last : CloneError)
  deriving Repr, BEq, DecidableEq

def ConfigurationError.name : ConfigurationError → String
  | .noBackends => "NoBackends"
  | .seedCountMismatch .. => "SeedCountMismatch"
  | .noWorkers .. => "NoWorkers"

def ConfigurationError.message : ConfigurationError → String
  | .noBackends => "at least one validity backend is required, got 0"
  | .seedCountMismatch backends seeds =>
    s!"Number of validity backends [{backends}] does not match number of seeds [{seeds}]"
  | .noWorkers attempted last =>
    s!"no worker could be provisioned ({attempted} attempted): {last.message}"

/-- A race was refused. -/
inductive RaceError where
  /-- Another race is in flight. -/
  | alreadyRacing
  /-- Nothing could be launched, and `busy` workers still run an earlier race. -/
  | workersBusy (busy : Nat)
  deriving Repr, BEq, DecidableEq

def RaceError.name : RaceError → String
  | .alreadyRacing => "AlreadyRacing"
  | .workersBusy _ => "WorkersBusy"

def RaceError.message : RaceError → String
  | .alreadyRacing => "coordinator is already racing another problem"
  | .workersBusy busy => s!"{busy} worker(s) still running an earlier race"

/-- A solve ended without a result. -/
inductive SolveFailure where
  | invalidStart
  | invalidGoal
  | unrecognizedGoal
  | exhausted
  | cancelled
  | crashed (message : String)
  | other (reason : String)
  deriving Repr, BEq, DecidableEq

def SolveFailure.name : SolveFailure → String
  | .invalidStart => "InvalidStart"
  | .invalidGoal => "InvalidGoal"
  | .unrecognizedGoal => "UnrecognizedGoal"
  | .exhausted => "Exhausted"
  | .cancelled => "Cancelled"
  | .crashed _ => "Crashed"
  | .other _ => "Other"

def SolveFailure.message : SolveFailure → String
  | .invalidStart => "invalid start state"
  | .invalidGoal => "invalid goal"
  | .unrecognizedGoal => "unrecognized goal type"
  | .exhausted => "attempt budget exhausted"
  | .cancelled => "cancelled"
  | .crashed message => s!"crashed: {message}"
  | .other reason => reason

end MotionRace
