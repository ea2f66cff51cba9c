import MotionRace.Race.Machine

/-!
# Taking turns

`Machine` says what may happen; this module picks one fair order and a clock to go with it. In
every round each call and each thread takes its next step, if it has one, and the clock moves on by
a fixed amount. A call that waits for reports, a thread that sleeps and a solve that waits for
something outside are left alone until their time has come. When nobody can move, the clock jumps
to the next such time; when there is none, everybody waits for the outside.
-/

namespace MotionRace

variable {σ : Type} {D : Domain σ}

/-- A machine with a clock. Times are in nanoseconds. -/
structure Turns {σ : Type} (D : Domain σ) where
  machine : Machine D
  now : Nat := 0
  /-- Until when each call waits, where it waits for something. -/
  callDue : List Nat := []
  /-- Until when each thread sleeps. -/
  threadDue : List Nat := []
  /-- When each thread got hold of its worker and when it let go. -/
  ran : List (Nat × Nat) := []

namespace Turns

/-- How long a round takes. -/
def roundNanos : Nat := 1000

/-- Put a value at an index of a list that may be shorter. -/
def put {α : Type} (default : α) (values : List α) (index : Nat) (value : α) : List α :=
  (values ++ List.replicate (index + 1 - values.length) default).set index value

/-- The machine of a pool at the start of time. -/
def ofWorkers (workers : List (Worker D)) (waits : Waits) (logs : Bool) (shared : σ) : Turns D :=
  { machine := .ofWorkers workers waits logs shared }

/-- Someone asks for a race. The answer is the index of the call. -/
def arrive (t : Turns D) (problem : D.Problem) : Nat × Turns D :=
  let index := t.machine.calls.length
  (index, { t with machine := { t.machine with calls := t.machine.calls ++ [{ problem }] } })

/-- How long a call that just came to a phase may wait there. -/
def delayOf (waits : Waits) : CallPhase D → Nat
  | .waiting => waits.busy
  | .collecting .. => waits.poll
  | _ => 0

/-- What someone who has a turn does with it. -/
inductive Turn where
  /-- Make a step that changes something. -/
  | moves
  /-- Make a step that changes nothing: look again at what was not there. -/
  | looks
  /-- Do nothing before the given time. -/
  | waits (due : Nat)
  /-- Do nothing until someone else has done something. -/
  | stuck
  deriving Repr, BEq

/-- Whether a collector stands before a place that shows nothing, and may wait there. -/
def collectorWaits (t : Turns D) (collector : Collector) : Bool :=
  match (collector.pending?).map t.machine.look with
  | some .empty => t.machine.waits.poll != 0
  | _ => false

/-- Whether a collector has something to see: in one of its places, or in that it is called off or
has seen every failure. -/
def collectorSees (t : Turns D) (collector : Collector) (abort : Token) : Bool :=
  t.machine.flags.isStopped abort || collector.failures == collector.launched ||
    collector.places.any fun
      | some pending =>
        match t.machine.look pending with
        | .empty => false
        | _ => true
      | none => false

/-- What the call of an index does with its turn, and the event if it makes one. -/
def callTurn (t : Turns D) (index : Nat) : Turn × Event D :=
  let due := t.callDue.getD index 0
  match t.machine.calls[index]? with
  | none => (.stuck, .call index)
  | some call =>
    match call.phase with
    | .ended _ => (.stuck, .call index)
    | .waiting =>
      if t.machine.slots.any (·.busy) then
        if due ≤ t.now then (.moves, .expire index) else (.waits due, .call index)
      else (.moves, .call index)
    | .asking .. => (.looks, .call index)
    | .collecting collector abort =>
      if t.collectorWaits collector && t.now < due then (.waits due, .call index)
      else (if t.collectorSees collector abort then .moves else .looks, .call index)
    | _ => (.moves, .call index)

/-- What the thread of an index does with its turn. -/
def threadTurn (t : Turns D) (index : Nat) : Turn × Event D :=
  let due := t.threadDue.getD index 0
  match t.machine.threads[index]? with
  | none => (.stuck, .thread index)
  | some thread =>
    match thread.phase with
    | .running (.solving _ .ready) => (.moves, .thread index)
    | .running (.solving _ .waiting) => (.looks, .thread index)
    | .running (.solving _ (.asleep _)) =>
      if due ≤ t.now then (.moves, .thread index) else (.waits due, .thread index)
    | .reported _ => (.stuck, .thread index)
    | .died _ => (.stuck, .thread index)
    | _ => (.moves, .thread index)

/-- Whether a call is past asking, so that its step changed something. -/
def stillAsking (m : Machine D) (index next : Nat) : Bool :=
  match m.calls[index]? with
  | some { phase := .asking now _ _, .. } => now == next
  | _ => false

/-- Whether a step that only looked found something after all. -/
def found (before after : Machine D) : Event D → Bool
  | .call index =>
    match before.calls[index]? with
    | some { phase := .asking next _ _, .. } => !stillAsking after index next
    | some { phase := .collecting .., .. } => false
    | _ => true
  | .thread index =>
    match after.threads[index]? with
    | some { phase := .running (.solving _ .waiting), .. } => false
    | _ => true
  | _ => true

/-- Set the clocks of whoever just made a step. -/
def setClocks (t : Turns D) : Event D → Turns D
  | .call index | .expire index =>
    match t.machine.calls[index]? with
    | some call =>
      { t with callDue := put 0 t.callDue index (t.now + delayOf t.machine.waits call.phase) }
    | none => t
  | .thread index =>
    match t.machine.threads[index]? with
    | some { phase := .running (.solving _ (.asleep nanos)), .. } =>
      { t with threadDue := put 0 t.threadDue index (t.now + nanos) }
    | some { phase := .running .entered, .. } =>
      { t with ran := put (0, 0) t.ran index (t.now, t.now) }
    | some { phase := .unlocked _, .. } =>
      { t with ran := put (0, 0) t.ran index ((t.ran.getD index (0, 0)).1, t.now) }
    | _ => t
  | _ => t

/-- What a round has come to so far: whether someone moved, and the earliest time someone waits
for. -/
structure Round where
  moved : Bool := false
  due : Option Nat := none
  deriving Repr, BEq

/-- The earlier of two times. -/
def earlier (due : Option Nat) (other : Nat) : Option Nat :=
  some (match due with
    | some due => min due other
    | none => other)

/-- Give one turn. -/
def giveTurn (t : Turns D) (round : Round) : Turn × Event D → Turns D × Round
  | (.stuck, _) => (t, round)
  | (.waits due, _) => (t, { round with due := earlier round.due due })
  | (turn, event) =>
    match t.machine.step event with
    | none => (t, round)
    | some machine =>
      let moved := turn == .moves || found t.machine machine event
      let t := { t with machine }.setClocks event
      (t, { round with moved := round.moved || moved })

/-- Give every call and then every thread a turn. -/
def playRound (t : Turns D) : Turns D × Round :=
  let (t, round) := (List.range t.machine.calls.length).foldl
    (fun (t, round) index => t.giveTurn round (t.callTurn index)) (t, {})
  (List.range t.machine.threads.length).foldl
    (fun (t, round) index => t.giveTurn round (t.threadTurn index)) (t, round)

/-- Play at most `fuel` rounds until a condition holds, or until the clock has come to `limit`, if
there is one. The answer is whether the condition held. -/
def playUntil (condition : Turns D → Bool) (limit : Option Nat) :
    (fuel : Nat) → Turns D → Bool × Turns D
  | 0, t => (condition t, t)
  | fuel + 1, t =>
    if condition t then (true, t)
    else if limit.any (· ≤ t.now) then (false, t)
    else
      let (t, round) := t.playRound
      if round.moved then
        playUntil condition limit fuel { t with now := t.now + roundNanos }
      else
        let next := t.now + roundNanos
        match round.due, limit with
        | some due, some limit =>
          playUntil condition (some limit) fuel { t with now := max next (min due limit) }
        | some due, none => playUntil condition none fuel { t with now := max next due }
        | none, some limit => (condition t, { t with now := limit })
        | none, none => (condition t, t)

/-- Play until nobody can move without the clock going on, for at most `fuel` rounds. -/
def settle : (fuel : Nat) → Turns D → Turns D
  | 0, t => t
  | fuel + 1, t =>
    let (t, round) := t.playRound
    if round.moved then settle fuel { t with now := t.now + roundNanos } else t

/-- Play until the call of an index is over. -/
def finish (index : Nat) (fuel : Nat) (t : Turns D) : Option (Ending D.Artifact) × Turns D :=
  let (_, t) := t.playUntil (fun t => (t.machine.ending? index).isSome) none fuel
  (t.machine.ending? index, t)

/-- How many rounds somebody who waits for the end is given. No clock gets there. -/
def patience : Nat := 1 <<< 62

/-- Ask for a race and play until the call is over. -/
def race (t : Turns D) (problem : D.Problem) : Option (Ending D.Artifact) × Turns D :=
  let (call, t) := t.arrive problem
  t.finish call patience

/-- Ask for a race and play until it is in flight or over. The answer is the index of the call. -/
def begin (t : Turns D) (problem : D.Problem) : Nat × Turns D :=
  let (call, t) := t.arrive problem
  let (_, t) := t.playUntil (fun t => t.machine.isRacing || (t.machine.ending? call).isSome) none
    patience
  (call, t)

/-- Call the race in flight off. -/
def abort (t : Turns D) : Bool × Turns D :=
  let (answer, machine) := t.machine.abort
  (answer, { t with machine })

end Turns

end MotionRace
