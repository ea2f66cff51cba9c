import MotionRace.Failure

/-!
# Solvers that act out a script

A race is easiest to follow when its solvers do as they are told. A script says, for each solver
and each problem, what the solver does: it succeeds or fails, now or later; it waits for a release,
for a stop or for a gate; it panics; it overwrites its world. A `Tally` counts and signals what
went on. This module has the parts; `Scripted.Domain` makes a domain of them.
-/

namespace MotionRace.Scripted

/-- A world of values of a type `α`. -/
structure World (α : Type) where
  values : List α
  /-- A malformed world cannot be copied. -/
  malformed : Bool := false
  deriving Repr, BEq, DecidableEq

/-- Put one value in the place of every value. -/
def World.overwrite {α : Type} (w : World α) (value : α) : World α :=
  { w with values := w.values.map fun _ => value }

/-- A checker that holds every value of a world against a limit. -/
structure Checker (α : Type) where
  name : String
  limit : α
  /-- Why it refuses to be installed, if it does. -/
  refusal : Option String := none
  installed : Bool := false
  deriving Repr, BEq, DecidableEq

namespace Checker

variable {α : Type}

/-- Bind a checker to a world. -/
def install (c : Checker α) (_ : World α) : Except CloneError (Checker α) :=
  match c.refusal with
  | some reason => .error (.backendRejected c.name reason)
  | none => .ok { c with installed := true }

/-- Whether every value is within the limit. -/
def accepts (c : Checker α) (within : (limit value : α) → Bool) (w : World α) : Bool :=
  w.values.all (within c.limit)

end Checker

/-- What a solver does with a problem. A success carries a prize of a type `β`; what takes time says
how many nanoseconds it sleeps. -/
inductive Act (α β : Type) where
  | succeed (prize : β) (nanos : Nat)
  | fail (reason : SolveFailure) (nanos : Nat)
  | panic (message : String)
  /-- The problem is not taken on. -/
  | ineligible
  /-- Wait for a release or a stop: a release is a success. -/
  | hold (prize : β)
  /-- Wait for a release, whatever is stopped. -/
  | holdDeaf (prize : β)
  /-- Wait for a release and fail. -/
  | holdFail
  /-- Wait for a stop. -/
  | spin
  /-- Take the problem on when the gate is open, and do not say before then whether. -/
  | gate (prize : β)
  /-- Put a value in the place of every value of the world. -/
  | scribble (value : α) (prize : β) (nanos : Nat)
  /-- Panic when asked whether the problem is taken on. -/
  | panicEligibility
  deriving Repr

/-- What is counted and signalled: copies of worlds for all solvers together, the rest by the index
of the solver. -/
structure Tally where
  clones : Nat := 0
  /-- The index of the next solver that is bound without a seed. -/
  next : Nat := 0
  /-- Solves begun, also by solvers that have no part in the script. -/
  solves : Nat := 0
  /-- Solves begun. -/
  solving : List Nat
  /-- Solves ended. -/
  done : List Nat
  /-- Questions whether a problem is taken on. -/
  asked : List Nat
  /-- Who stands before a closed gate. -/
  blocked : List Bool
  /-- Who has seen a stop. -/
  stopSeen : List Bool
  released : List Bool
  opened : List Bool
  deriving Repr, BEq, DecidableEq

namespace Tally

/-- The tally of so many solvers before anything went on. -/
def ofLength (length : Nat) : Tally where
  solving := List.replicate length 0
  done := List.replicate length 0
  asked := List.replicate length 0
  blocked := List.replicate length false
  stopSeen := List.replicate length false
  released := List.replicate length false
  opened := List.replicate length false

/-- One more at an index. -/
def bump (counts : List Nat) (index : Nat) : List Nat := counts.modify index (· + 1)

/-- Let the solver of an index go on from where it holds. -/
def release (t : Tally) (index : Nat) : Tally := { t with released := t.released.set index true }

/-- Open the gate of an index. -/
def openGate (t : Tally) (index : Nat) : Tally := { t with opened := t.opened.set index true }

/-- The solver of an index has begun a solve. -/
def begin (t : Tally) (index : Nat) : Tally :=
  { t with solves := t.solves + 1, solving := bump t.solving index }

/-- The solver of an index has ended a solve. -/
def leave (t : Tally) (index : Nat) : Tally := { t with done := bump t.done index }

/-- The solver of an index has seen a stop. -/
def seeStop (t : Tally) (index : Nat) : Tally := { t with stopSeen := t.stopSeen.set index true }

/-- The solver of an index is asked. One who stands before a gate was counted when it got there. -/
def ask (t : Tally) (index : Nat) : Tally :=
  if t.blocked.getD index false then t else { t with asked := bump t.asked index }

/-- The solver of an index has come to its gate, or has gone through it. -/
def block (t : Tally) (index : Nat) (blocked : Bool) : Tally :=
  { t with blocked := t.blocked.set index blocked }

end Tally

/-- A solver: which part of the script it plays, and the seed it was bound with. -/
structure Solver where
  index : Nat := 0
  seed : Option UInt64 := none
  deriving Repr, BEq, DecidableEq

/-- What a successful solve leaves: who solved, the prize, the world afterwards and the checker. -/
structure Finding (α β : Type) where
  index : Nat
  prize : β
  world : World α
  checker : Checker α
  deriving Repr

/-- A script. -/
structure Script (α β : Type) where
  /-- What each solver does, problem by problem; the last act is for all problems after it. -/
  acts : List (List (Act α β))
  /-- Whether a seed is counted round the solvers, or must be the index of one. -/
  wraps : Bool := false
  /-- The numbers of the copies that fail. -/
  failing : List Nat := []
  /-- The numbers of the copies that panic. -/
  panicking : List Nat := []

namespace Script

variable {α β : Type}

/-- What a solver does with a problem. A solver that has no part in the script panics. -/
def act (s : Script α β) (solver : Solver) (problem : Nat) : Except Panic (Act α β) :=
  match s.acts[solver.index]? with
  | none => .error (.outOfRange s.acts.length solver.index)
  | some acts =>
    match acts[min problem (acts.length - 1)]? with
    | none => .error (.outOfRange acts.length problem)
    | some act => .ok act

/-- The index that a seed stands for. -/
def indexOf (s : Script α β) (seed : UInt64) : Nat :=
  if s.wraps then seed.toNat % s.acts.length else seed.toNat

end Script

end MotionRace.Scripted
