import MotionRace.Pool.Domain
import MotionRace.Scripted.Basic

/-!
# Racing scripted solvers

The domain of a script. Problems are numbers, and nothing here is left to chance, so what a race of
scripted solvers comes to depends on the order of its events alone.
-/

namespace MotionRace.Scripted

variable {α β : Type}

/-- A solve under way. -/
structure Session (α β : Type) where
  solver : Solver
  /-- What it does; a solver that has no part in the script panics. -/
  act : Except Panic (Act α β)
  world : World α
  checker : Checker α
  /-- Whether it has slept as long as its act says. -/
  slept : Bool := false

namespace Script

/-- Copy a world. Copies are numbered; the script says which numbers fail. A malformed world is not
copied and takes no number. -/
def copy (s : Script α β) (w : World α) (t : Tally) :
    Except Panic (Except CloneError (World α)) × Tally :=
  if w.malformed then (.ok (.error (.malformed "scripted malformed world")), t)
  else
    let number := t.clones
    let t := { t with clones := number + 1 }
    if s.failing.contains number then
      (.ok (.error (.malformed ("clone " ++ toString number ++ " refused"))), t)
    else if s.panicking.contains number then (.error ⟨"clone"⟩, t)
    else (.ok (.ok w), t)

/-- A solver with a part in the script: the one its seed stands for, or else the next one. -/
def bindSolver (s : Script α β) (seed : Option UInt64) (t : Tally) : Solver × Tally :=
  match seed with
  | some word => ({ index := s.indexOf word, seed }, t)
  | none => ({ index := t.next, seed }, { t with next := t.next + 1 })

/-- Whether a solver takes a problem on. -/
def asks (s : Script α β) (solver : Solver) (problem : Nat) (t : Tally) : Eligibility × Tally :=
  let index := solver.index
  match s.act solver problem with
  | .error panic => (.panics panic, t)
  | .ok .ineligible => (.refuses, t.ask index)
  | .ok .panicEligibility => (.panics ⟨"eligibility"⟩, t.ask index)
  | .ok (.gate _) =>
    if t.opened.getD index false then (.accepts, (t.ask index).block index false)
    else (.undecided, (t.ask index).block index true)
  | .ok _ => (.accepts, t.ask index)

/-- Begin a solve. -/
def start (s : Script α β) (solver : Solver) (problem : Nat) (w : World α) (c : Checker α)
    (t : Tally) : Session α β × Tally :=
  ({ solver, act := s.act solver problem, world := w, checker := c }, t.begin solver.index)

end Script

/-- A step of a solve. -/
abbrev Step (α β : Type) : Type :=
  Move (Session α β) Solver (Checker α) (Finding α β) × Tally

namespace Session

/-- End with a result. -/
def close (s : Session α β) (t : Tally)
    (result : Except Panic (Except SolveFailure (Finding α β))) : Step α β :=
  (.ends result s.solver s.checker, t.leave s.solver.index)

/-- End with a prize. -/
def win (s : Session α β) (t : Tally) (prize : β) : Step α β :=
  s.close t (.ok (.ok { index := s.solver.index, prize, world := s.world, checker := s.checker }))

/-- End without a result. -/
def lose (s : Session α β) (t : Tally) (reason : SolveFailure) : Step α β :=
  s.close t (.ok (.error reason))

/-- End because a stop was seen. -/
def heed (s : Session α β) (t : Tally) : Step α β := s.lose (t.seeStop s.solver.index) .cancelled

/-- Wait for something outside. -/
def wait (s : Session α β) (t : Tally) : Step α β := (.goesOn s .waiting, t)

/-- Sleep for a while, once, before going on. -/
def after (s : Session α β) (t : Tally) (nanos : Nat) (next : Step α β) : Step α β :=
  if s.slept || nanos = 0 then next else (.goesOn { s with slept := true } (.asleep nanos), t)

/-- The next step of a solve, given whether a stop was requested. -/
def advance (s : Session α β) (stopped : Bool) (t : Tally) : Step α β :=
  let released := t.released.getD s.solver.index false
  match s.act with
  | .error panic => s.close t (.error panic)
  | .ok (.succeed prize nanos) => s.after t nanos (s.win t prize)
  | .ok (.fail reason nanos) => s.after t nanos (s.lose t reason)
  | .ok (.panic message) => s.close t (.error ⟨message⟩)
  | .ok .ineligible => s.lose t .unrecognizedGoal
  | .ok .panicEligibility => s.lose t .unrecognizedGoal
  | .ok (.hold prize) =>
    if stopped then s.heed t else if released then s.win t prize else s.wait t
  | .ok (.holdDeaf prize) => if released then s.win t prize else s.wait t
  | .ok .holdFail => if released then s.lose t .exhausted else s.wait t
  | .ok .spin => if stopped then s.heed t else s.wait t
  | .ok (.gate prize) => s.win t prize
  | .ok (.scribble value prize nanos) =>
    s.after t nanos ({ s with world := s.world.overwrite value }.win t prize)

end Session

/-- The domain of a script. -/
def Script.domain (s : Script α β) : Domain Tally where
  World := World α
  Backend := Checker α
  Solver := Solver
  Problem := Nat
  Artifact := Finding α β
  Session := Session α β
  copy := s.copy
  install := Checker.install
  bindSolver _ _ := s.bindSolver
  asks := s.asks
  start := s.start
  advance := Session.advance

end MotionRace.Scripted
