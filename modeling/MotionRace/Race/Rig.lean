import MotionRace.FileStore.Basic
import MotionRace.TimingLog

/-!
# A pool at hand

A `Rig` holds the workers of a pool, to be run and asked one by one or moved into a coordinator and
raced, and writes its timing log into files in memory. Between two orders everybody plays on
for a while, so that what is under way goes as far as it can.
-/

namespace MotionRace

/-- A pool and what became of it. -/
structure Rig {σ : Type} (D : Domain σ) where
  /-- The workers that are in no coordinator. -/
  workers : List (Worker D)
  /-- The coordinators, the newest first. The oldest has the workers and whatever goes on. -/
  coordinators : List (Turns D) := []
  /-- What the parts of the domain share, while there is no coordinator. -/
  shared : σ
  /-- The call that was started last, until it is joined: how many coordinators are older than its
  own, and its index there. -/
  started : Option (Nat × Nat) := none
  waits : Waits := {}
  /-- The path of the timing log, if one is kept. -/
  log : Option String := none
  store : FileStore

namespace Rig

variable {σ : Type} {D : Domain σ}

/-- How many rounds are played between two orders. -/
def idleRounds : Nat := 2000

/-- How long an order waits for a condition, in nanoseconds. -/
def waitNanos : Nat := 10000000000

/-- The coordinator that is asked for races. -/
def current? (r : Rig D) : Option (Turns D) := r.coordinators.head?

/-- Put a coordinator in the place of the newest. -/
def setCurrent (r : Rig D) (t : Turns D) : Rig D :=
  { r with coordinators := t :: r.coordinators.tail }

/-- Change the coordinator with the workers. -/
def mapOldest (r : Rig D) (change : Turns D → Turns D) : Rig D :=
  { r with coordinators := r.coordinators.modify (r.coordinators.length - 1) change }

/-- What the parts of the domain share. -/
def sharedNow (r : Rig D) : σ :=
  match r.coordinators.getLast? with
  | some t => t.machine.shared
  | none => r.shared

def setShared (r : Rig D) (shared : σ) : Rig D :=
  { r.mapOldest fun t => { t with machine := { t.machine with shared } } with shared }

/-- Write the lines of the runs that are over into the log. -/
def flush (r : Rig D) : Rig D :=
  match r.log with
  | none => r
  | some path =>
    { r with
      coordinators := r.coordinators.map fun t => { t with machine := { t.machine with log := [] } }
      store := r.coordinators.foldr (fun t store =>
        if t.machine.logs then (store.append path (TimingLog.lines t)).2 else store) r.store }

/-- Move the workers into a coordinator, which is asked for races from now on. A log that cannot be
opened is done without. -/
def coordinate (r : Rig D) : Rig D :=
  let r := r.flush
  let (logs, store) := match r.log with
    | none => (false, r.store)
    | some path =>
      match r.store.append path [TimingLog.header r.workers.length "0000-00-00 00:00:00"] with
      | (.ok (), store) => (true, store)
      | (.error _, store) => (false, store)
  { r with
    workers := []
    coordinators := .ofWorkers r.workers r.waits logs r.sharedNow :: r.coordinators
    store }

/-- Let everybody play on. -/
def settle (r : Rig D) : Rig D := r.mapOldest (·.settle idleRounds)

/-- Play until a condition holds. The answer is whether it held in time. -/
def waitFor (r : Rig D) (condition : σ → Bool) : Bool × Rig D :=
  match r.coordinators.getLast? with
  | none => (condition r.shared, r)
  | some t =>
    let limit := some (t.now + waitNanos)
    let (held, t) := t.playUntil (fun t => condition t.machine.shared) limit Turns.patience
    (held, r.mapOldest fun _ => t)

/-- Ask the coordinator for a race and leave it to itself. There is no answer without a
coordinator. -/
def start (r : Rig D) (problem : D.Problem) : Option (Rig D) :=
  match r.coordinators with
  | [] => none
  | t :: older =>
    let (call, t) := t.begin problem
    some { r with coordinators := t :: older, started := some (older.length, call) }

/-- Wait for the end of the race that was started last. -/
def join (r : Rig D) : Option (Option (Ending D.Artifact)) × Rig D :=
  let index (older : Nat) : Nat := r.coordinators.length - 1 - older
  match r.started with
  | none => (none, r)
  | some (older, call) =>
    match r.coordinators[index older]? with
    | none => (none, r)
    | some t =>
      let (ending, t) := t.finish call Turns.patience
      (some ending, { r with
        coordinators := r.coordinators.set (index older) t
        started := none })

/-- Run the worker at an index by itself. There is no answer if the run does not end. -/
def run (r : Rig D) (index : Nat) (w : Worker D) (stopped : Bool) (problem : D.Problem) :
    Option (Except Panic (Verdict D.Artifact)) × Rig D :=
  match w.run (fun _ => stopped) problem Turns.patience r.sharedNow with
  | none => (none, r)
  | some (result, w, shared) =>
    (some result, { r with workers := r.workers.set index w }.setShared shared)

/-- Ask a worker whether it takes a problem on. -/
def ask (r : Rig D) (w : Worker D) (problem : D.Problem) : Eligibility × Rig D :=
  let (eligibility, shared) := w.asks problem r.sharedNow
  (eligibility, r.setShared shared)

end Rig

end MotionRace
