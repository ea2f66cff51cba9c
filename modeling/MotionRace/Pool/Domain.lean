import MotionRace.Failure

/-!
# What a pool races

A domain says what worlds, checkers and solvers are and how they are copied, installed, bound and
run. A solve is a session that is moved on step by step: at each step it sees whether a stop was
requested, and it either goes on or ends. Foreign code may panic wherever it is called. Worlds and
solvers may share state of a type `σ` (a clone counter, a source of entropy); a domain whose parts
share nothing takes a type with one value.
-/

namespace MotionRace

/-- How long a session wants to be left alone. -/
inductive Rest where
  /-- It can be moved on at once. -/
  | ready
  /-- It waits for something outside to change. -/
  | waiting
  /-- It sleeps for so many nanoseconds. -/
  | asleep (nanos : Nat)
  deriving Repr, BEq, DecidableEq

/-- The answer to whether a solver takes on a problem. -/
inductive Eligibility where
  | accepts
  | refuses
  /-- The solver has not made up its mind; it is asked on. -/
  | undecided
  | panics (panic : Panic)
  deriving Repr, BEq, DecidableEq

/-- How a solve moves on: the session goes on, or it ends with a result or a panic and gives the
solver and the checker back. -/
inductive Move (Session Solver Backend Artifact : Type) where
  | goesOn (session : Session) (rest : Rest)
  | ends (result : Except Panic (Except SolveFailure Artifact)) (solver : Solver)
      (backend : Backend)

/-- What is raced. -/
structure Domain (σ : Type) where
  World : Type
  Backend : Type
  Solver : Type
  Problem : Type
  Artifact : Type
  /-- A solve under way. -/
  Session : Type
  /-- An independent copy of a world. -/
  copy : World → σ → Except Panic (Except CloneError World) × σ
  /-- Bind a checker to a world. -/
  install : Backend → World → Except CloneError Backend
  /-- A copy of a solver bound to a world, on its own randomness unless a seed is given. -/
  bindSolver : Solver → World → Option UInt64 → σ → Solver × σ
  /-- Whether a solver takes on a problem. -/
  asks : Solver → Problem → σ → Eligibility × σ
  /-- Begin to solve a problem on a scratch world. -/
  start : Solver → Problem → World → Backend → σ → Session × σ
  /-- Move a solve on, given whether a stop was requested. -/
  advance : Session → Bool → σ → Move Session Solver Backend Artifact × σ

end MotionRace
