import MotionRace.Command.Run
import Std.Time.Format

/-!
# The program

The command on the machine it is started on: its files, its clocks, its randomness and its streams.
What the command does is said in `Command.run`; here is only what it runs on.
-/

namespace MotionRace.Program

open MotionRace.Random (WordStream)

/-- The number of processors, one if it cannot be told. -/
def processors : IO Nat := do
  try
    let text ← IO.FS.readFile "/proc/cpuinfo"
    return max 1 ((text.splitOn "\n").filter (·.startsWith "processor")).length
  catch _ => return 1

/-- A stream of words that nobody can foretell. -/
def source : IO WordStream := do
  let bytes ← IO.getRandomBytes 8
  let word := bytes.toList.foldl (fun word byte => 256 * word + byte.toNat) 0
  return .ofSeed word.toUInt64

/-- The text of a file, if there is one to be read. -/
def readText (path : String) : IO (Option String) := do
  try return some (← IO.FS.readFile path) catch _ => return none

/-- Open a file and put a text into it. -/
def writeText (mode : IO.FS.Mode) (path text : String) : IO (Except WriteFault Unit) := do
  let opened ← try pure (some (← IO.FS.Handle.mk path mode)) catch _ => pure none
  match opened with
  | none => return .error .unopened
  | some handle =>
    try
      handle.putStr text
      handle.flush
      return .ok ()
    catch _ => return .error .unwritten

/-- The time for a report: the date, a `T` and the time of day, far from any local time. -/
def reportTime : IO String := do
  let now := Std.Time.DateTime.ofTimestamp (← Std.Time.Timestamp.now) .UTC
  return now.format "uuuu-MM-dd" ++ "T" ++ now.format "HH:mm:ss.SSSSSSSSS" ++ "+00:00"

/-- The time for a log, as the clock on the wall shows it. -/
def logTime : IO String := do
  return (← Std.Time.PlainDateTime.now).format "uuuu-MM-dd HH:mm:ss"

/-- The machine as a host. -/
def host : IO (Command.Host IO) := do
  return {
    processors := ← processors
    source := ← source
    readText
    appendLines := fun path lines => writeText .append path (Lines.text lines)
    createText := writeText .write
    printLines := fun lines => do (← IO.getStdout).putStr (Lines.text lines)
    clock := IO.monoNanosNow
    reportTime
    logTime }

end MotionRace.Program

/-- Run the command and end as it says. -/
def main (args : List String) : IO UInt32 := do
  let environment ← IO.getEnv "PLANRACE_CONFIG"
  let exit ← MotionRace.Command.run (← MotionRace.Program.host) args environment
  (← IO.getStderr).putStr (MotionRace.Lines.text exit.report)
  return exit.code
