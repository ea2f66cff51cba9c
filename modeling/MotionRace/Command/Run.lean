import MotionRace.Command.Options
import MotionRace.FileStore.Basic
import MotionRace.Race.Turns
import MotionRace.Report.Basic
import MotionRace.Report.Summary
import MotionRace.Scenario.Check
import MotionRace.Scenario.Read
import MotionRace.TimingLog

/-!
# The command

The command reads its options and its scenario, builds the pool, races it and tells of the race. All
it needs from outside is a `Host`: files, clocks, a source of randomness and a place to print to.
-/

namespace MotionRace.Command

open MotionRace.Random (WordStream)

/-- What the command runs on. -/
structure Host (m : Type → Type) where
  /-- The number of processors. -/
  processors : Nat
  /-- Where planners without a seed take their randomness from. -/
  source : WordStream
  /-- The text of a file, if it can be read as one. -/
  readText : String → m (Option String)
  /-- Add lines to a file, which is made if it is not there. -/
  appendLines : String → List String → m (Except WriteFault Unit)
  /-- Make a file with a text in it, in place of what was there. -/
  createText : String → String → m (Except WriteFault Unit)
  /-- Print some lines. -/
  printLines : List String → m Unit
  /-- The nanoseconds of a clock that never goes back. -/
  clock : m Nat
  /-- The time, for a report. -/
  reportTime : m String
  /-- The time, for a log. -/
  logTime : m String

/-- Why the command fails. -/
inductive Failure where
  | noWorkers
  | unreadable (path : String)
  | unparsable (path : String) (error : ReadError)
  | invalid (fault : Fault)
  | crashed (panic : Panic)
  | provisioning (error : ConfigurationError)
  | refused (error : RaceError)
  /-- The race did not end. -/
  | endless
  | reportUnopened (path : String)
  | reportUnwritten
  | noPlan (summary : String)
  deriving Repr

/-- The messages of a failure, the outermost first. -/
def Failure.chain : Failure → List String
  | .noWorkers => [Fault.noWorkers.message]
  | .unreadable path => ("Failed to read config file: " ++ path) :: Path.complaints path
  | .unparsable path error =>
    ["Failed to parse config file: " ++ path, "Failed to parse TOML configuration", error.message]
  | .invalid fault => fault.chain
  | .crashed panic => [panic.message]
  | .provisioning error => ["Failed to provision workers", error.message]
  | .refused error => [error.message]
  | .endless => ["the race did not end"]
  | .reportUnopened path => ("Failed to create JSON output: " ++ path) :: Path.complaints path
  | .reportUnwritten => ["the report could not be written"]
  | .noPlan summary => ["race ended without a plan: " ++ summary]

/-- The lines that tell of a failure: its first message, and the others as its causes. -/
def Failure.report (f : Failure) : List String :=
  match f.chain with
  | [] => []
  | [message] => ["Error: " ++ message]
  | [message, cause] => ["Error: " ++ message, "", "Caused by:", "    " ++ cause]
  | message :: causes =>
    ["Error: " ++ message, "", "Caused by:"] ++
      causes.mapIdx fun i cause => "    " ++ toString i ++ ": " ++ cause

variable {m : Type → Type} [Monad m]

/-- The scenario of the options: read, overridden by the options, and checked. -/
def loadScenario (host : Host m) (o : Options) : ExceptT Failure m Scenario := do
  match ← host.readText o.config with
  | none => throw (.unreadable o.config)
  | some text =>
    match Scenario.parse host.processors text with
    | .error e => throw (.unparsable o.config e)
    | .ok s =>
      let s := o.override s
      match s.check with
      | .error fault => throw (.invalid fault)
      | .ok () => return s

/-- Build the pool of a scenario. -/
def buildPool (host : Host m) (s : Scenario) :
    ExceptT Failure m (List (Worker planning) × WordStream) := do
  match s.pool host.source with
  | (.error panic, _) => throw (.crashed panic)
  | (.ok (.error e), _) => throw (.provisioning e)
  | (.ok (.ok workers), source) => return (workers, source)

/-- Open a timing log for a pool. The answer is why it cannot be written. -/
def openLog (host : Host m) (path : String) (workers : Nat) :
    m (Except TimingLog.Refusal Unit) := do
  let time ← host.logTime
  return (← host.appendLines path [TimingLog.header workers time]).mapError (.ofFault path)

/-- Open the log that is asked for, if one is. A log that cannot be opened is done without. -/
def openLog? (host : Host m) (path? : Option String) (workers : Nat) : m (Option String) := do
  match path? with
  | none => return none
  | some path =>
    match ← openLog host path workers with
    | .ok () => return some path
    | .error _ => return none

/-- Race a pool on a problem, from the first round of turns to the end of the call. -/
def racePool (s : Scenario) (workers : List (Worker planning)) (logs : Bool) (source : WordStream) :
    Option (Ending Trajectory) × Turns planning :=
  (Turns.ofWorkers (D := planning) workers s.race.waits logs source).race s.problem

/-- Put the report where the scenario wants it. -/
def deliver (host : Host m) (s : Scenario) (report : Report) : ExceptT Failure m Unit := do
  if let some path := s.output.jsonOutput then
    match ← host.createText path (report.text true) with
    | .ok () => pure ()
    | .error .unopened => throw (.reportUnopened path)
    | .error .unwritten => throw .reportUnwritten
  if s.output.json then host.printLines [report.text true]

/-- Tell of a race that took place. -/
def tell (host : Host m) (s : Scenario) (workers : Nat) (elapsed : Elapsed)
    (outcome : Outcome Trajectory) : ExceptT Failure m Unit := do
  if s.output.json || s.output.jsonOutput.isSome then
    let timestamp ← host.reportTime
    deliver host s { timestamp, outcome, problem := s.problem.kind, workers, elapsed }
  if !s.output.json then host.printLines (Summary.results outcome elapsed s)
  if outcome.isSuccess then return () else throw (.noPlan outcome.summary)

/-- Race the pool of a scenario and tell of the race. -/
def runRace (host : Host m) (s : Scenario) (workers : List (Worker planning)) (log : Option String)
    (source : WordStream) : ExceptT Failure m Unit := do
  let started ← host.clock
  match racePool s workers log.isSome source with
  | (none, _) => throw .endless
  | (some ending, t) =>
    let ended ← host.clock
    if let some path := log then
      let _ ← host.appendLines path (TimingLog.lines t)
    match ending with
    | .panicked panic => throw (.crashed panic)
    | .refused e => throw (.refused e)
    | .outcome outcome => tell host s workers.length ⟨ended - started⟩ outcome

/-- Carry out the options. -/
def runOptions (host : Host m) (o : Options) : ExceptT Failure m Unit := do
  if !o.hasWorkers then throw .noWorkers
  let s ← loadScenario host o
  let (workers, source) ← buildPool host s
  let log ← ExceptT.lift (openLog? host s.race.timingLog workers.length)
  if o.dryRun then host.printLines (Summary.dryRun s workers.length)
  else runRace host s workers log source

/-- The version of the command. -/
def versionLine : String := "planrace 0.1.0"

/-- What the command can be told, for a reader. -/
def helpLines : List String :=
  ["Race independent motion planners and keep the first plan found", "",
    "Options:",
    "  -c, --config <FILE>          Scenario file (TOML), or PLANRACE_CONFIG",
    "  -w, --workers <WORKERS>      Number of workers",
    "      --seed <SEED>            Seed of the first worker; the others count up from it",
    "      --poll-timeout-us <N>    Wait for one report, in microseconds",
    "      --timing-log <FILE>      Add the times of the workers to this file",
    "      --json                   Print the outcome as JSON",
    "      --json-output <FILE>     Also write the outcome to this file",
    "  -v, --verbose                Say more",
    "      --dry-run                Build the pool and do not race it",
    "  -h, --help                   Print this",
    "  -V, --version                Print the version"]

/-- How the command ends. -/
inductive Exit where
  | success
  /-- The command line is refused. -/
  | usage (refusal : Refusal)
  | failure (failure : Failure)
  deriving Repr

/-- The code that a shell sees. -/
def Exit.code : Exit → UInt32
  | .success => 0
  | .usage _ => 2
  | .failure (.crashed _) => 101
  | .failure _ => 1

/-- What the command says of its end where errors go. -/
def Exit.report : Exit → List String
  | .success => []
  | .usage refusal => ["error: " ++ refusal.name, "For more information, try '--help'."]
  | .failure e => e.report

/-- The command with its arguments and what the environment says of the scenario file. -/
def run (host : Host m) (args : List String) (environment : Option String) : m Exit := do
  match Options.parse args environment with
  | .error .helpAsked => do
    host.printLines helpLines
    return .success
  | .error .versionAsked => do
    host.printLines [versionLine]
    return .success
  | .error refusal => return .usage refusal
  | .ok o =>
    match ← (runOptions host o).run with
    | .ok () => return .success
    | .error failure => return .failure failure

end MotionRace.Command
