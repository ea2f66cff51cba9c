import MotionRace.FileStore.Basic
import MotionRace.Race.Turns
import MotionRace.Report.Elapsed

/-!
# The timing log

A text file that is only ever added to: a header line each time it is opened, and a line for every
run of a worker.
-/

namespace MotionRace.TimingLog

/-- The header line of a pool of so many workers, opened at a time. -/
def header (workers : Nat) (time : String) : String :=
  "# " ++ toString workers ++ " solvers, started " ++ time

/-- The line of a run. -/
def line (worker : Nat) (failed : Bool) (elapsed : Elapsed) : String :=
  toString worker ++ "th solver" ++ (if failed then " [fail]" else "") ++ ": " ++
    Decimal.fixed 3 elapsed.seconds

/-- The lines of the runs that a race has logged, each with the time its thread held the worker. -/
def lines {σ : Type} {D : Domain σ} (t : Turns D) : List String :=
  t.machine.log.map fun entry =>
    let (taken, released) := t.ran.getD entry.thread (0, 0)
    line entry.worker entry.failed ⟨released - taken⟩

/-- The file name for the log of a pool of so many workers, where none is asked for. -/
def defaultName (workers : Nat) : String := toString workers ++ "_solvers.txt"

/-- A log could not be opened. -/
inductive Refusal where
  /-- The file cannot be added to. -/
  | unopened (path : String)
  /-- The header could not be written. -/
  | unwritten (path : String)
  deriving Repr, BEq, DecidableEq

/-- The messages of a refusal, the outermost first. -/
def Refusal.chain : Refusal → List String
  | .unopened path => ("Failed to open timing log: " ++ path) :: Path.complaints path
  | .unwritten path => ["Failed to write timing log: " ++ path]

/-- Why the log at a path is not opened, by what writing its header came to. -/
def Refusal.ofFault (path : String) : WriteFault → Refusal
  | .unopened => .unopened path
  | .unwritten => .unwritten path

end MotionRace.TimingLog
