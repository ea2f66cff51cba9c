import MotionRace.Pool.Domain

/-!
# Workers

A worker owns a solver, a world, a checker and perhaps a seed. A run takes a scratch copy of the
world, so every run starts from the world the worker was built around, and yields one verdict. A
stop requested before a run begins skips the solve; a panic inside the solve is a failure of that
run and leaves the worker usable.
-/

namespace MotionRace

/-- What one run of a worker came to. -/
inductive Verdict (α : Type) where
  | success (artifact : α)
  | failure (reason : SolveFailure)
  deriving Repr, BEq, DecidableEq

def Verdict.isSuccess {α : Type} : Verdict α → Bool
  | .success _ => true
  | .failure _ => false

/-- The verdict of a finished solve. -/
def Verdict.ofSolve {α : Type} : Except Panic (Except SolveFailure α) → Verdict α
  | .ok (.ok artifact) => .success artifact
  | .ok (.error reason) => .failure reason
  | .error panic => .failure (.crashed panic.message)

/-- One participant of a race. -/
structure Worker {σ : Type} (D : Domain σ) where
  /-- The position of its checker in what the pool was built from. -/
  id : Nat
  solver : D.Solver
  world : D.World
  backend : D.Backend
  seed : Option UInt64

/-- How far a run has come. -/
inductive RunPhase {σ : Type} (D : Domain σ) where
  /-- The stop flag has not been looked at. -/
  | entered
  /-- The scratch copy has not been taken. -/
  | copying
  | solving (session : D.Session) (rest : Rest)
  | finished (verdict : Verdict D.Artifact)
  /-- A panic outside the solve took the run down. -/
  | died (panic : Panic)

namespace Worker

variable {σ : Type} {D : Domain σ}

/-- A worker around a world that was copied for it. -/
def build (id : Nat) (template : D.Solver) (world : D.World) (backend : D.Backend)
    (seed : Option UInt64) (shared : σ) : Except CloneError (Worker D) × σ :=
  match D.install backend world with
  | .error e => (.error e, shared)
  | .ok backend =>
    let (solver, shared) := D.bindSolver template world seed shared
    (.ok { id, solver, world, backend, seed }, shared)

/-- Whether the worker's solver takes on a problem. -/
def asks (w : Worker D) (problem : D.Problem) (shared : σ) : Eligibility × σ :=
  D.asks w.solver problem shared

/-- The next step of a run, given whether a stop was requested. -/
def step (w : Worker D) (problem : D.Problem) (stopped : Bool) (phase : RunPhase D) (shared : σ) :
    (RunPhase D × Worker D) × σ :=
  match phase with
  | .entered => ((if stopped then .finished (.failure .cancelled) else .copying, w), shared)
  | .copying =>
    match D.copy w.world shared with
    | (.error panic, shared) => ((.died panic, w), shared)
    | (.ok (.error e), shared) => ((.finished (.failure (.other e.message)), w), shared)
    | (.ok (.ok scratch), shared) =>
      let (session, shared) := D.start w.solver problem scratch w.backend shared
      ((.solving session .ready, w), shared)
  | .solving session _ =>
    match D.advance session stopped shared with
    | (.goesOn session rest, shared) => ((.solving session rest, w), shared)
    | (.ends result solver backend, shared) =>
      ((.finished (.ofSolve result), { w with solver, backend }), shared)
  | .finished verdict => ((.finished verdict, w), shared)
  | .died panic => ((.died panic, w), shared)

/-- The end of a run: a verdict, or a panic from outside the solve. -/
def RunPhase.ending? : RunPhase D → Option (Except Panic (Verdict D.Artifact))
  | .finished verdict => some (.ok verdict)
  | .died panic => some (.error panic)
  | _ => none

/-- Run a worker by itself for at most `fuel` steps from a phase on; `stops` answers the looks at
the stop flag. There is no answer if the run is not over by then. -/
def runFrom (stops : Nat → Bool) (problem : D.Problem) :
    (fuel step : Nat) → Worker D → RunPhase D → σ →
      Option (Except Panic (Verdict D.Artifact) × Worker D × σ)
  | 0, _, _, _, _ => none
  | fuel + 1, n, w, phase, shared =>
    match RunPhase.ending? phase with
    | some ending => some (ending, w, shared)
    | none =>
      let ((phase, w), shared) := w.step problem (stops n) phase shared
      runFrom stops problem fuel (n + 1) w phase shared

/-- Run a worker by itself on a problem. -/
def run (stops : Nat → Bool) (problem : D.Problem) (fuel : Nat) (w : Worker D) (shared : σ) :
    Option (Except Panic (Verdict D.Artifact) × Worker D × σ) :=
  runFrom stops problem fuel 0 w .entered shared

end Worker

end MotionRace
