import MotionRace.Pool.Provision
import MotionRace.Race.Collect
import MotionRace.Race.Stop

/-!
# Racing a pool, step by step

A coordinator owns a pool and runs one race at a time. Any number of callers may ask it for a race
or to call the race off; the workers of a race run on threads of their own and may outlive it. This
module says what each party does in one atomic step. A `Machine` is the state that all of them
share together with the point each one has reached; `Machine.step` makes one `Event` happen. What a
list of events leads to is what one interleaving leads to, so what holds for every list of events
holds for every interleaving.

What a race does, in order: it takes the racing flag or is refused; it waits a while for workers of
an earlier race; it claims every idle worker that takes the problem on; it registers a stop token
for each; it starts their threads, unless it was called off by then; it collects their results; and
it gives the racing flag back however it ends.

What the thread of a worker does, in order: it locks the worker, runs it, unlocks it, marks it as
free, writes its line into the timing log and reports.
-/

namespace MotionRace

/-- A worker of the pool, the mark that it is claimed, and whether some thread holds it. -/
structure Slot {σ : Type} (D : Domain σ) where
  worker : Worker D
  busy : Bool := false
  locked : Bool := false

/-- The race in flight: what its stop tokens and the flag that calls it off are. They stay until the
next race begins. -/
structure Flight where
  racing : Bool := false
  bridge : Bridge := {}
  abort : Token := ⟨0⟩
  deriving Repr, BEq, DecidableEq

/-- How long a race waits: for workers of an earlier race, and for one report. In nanoseconds; zero
is no wait at all. -/
structure Waits where
  poll : Nat := 200000
  busy : Nat := 100000000
  deriving Repr, BEq, DecidableEq

/-- A line of the timing log: whose run it was, whether it failed, and which thread ran it. -/
structure LogEntry where
  worker : Nat
  failed : Bool
  thread : Nat
  deriving Repr, BEq, DecidableEq

/-- Where the thread of a worker stands. -/
inductive ThreadPhase {σ : Type} (D : Domain σ) where
  /-- Started; it wants the worker. -/
  | starting
  /-- It holds the worker and runs it. -/
  | running (phase : RunPhase D)
  /-- It has let go of the worker. -/
  | unlocked (verdict : Verdict D.Artifact)
  /-- It has marked the worker as free. -/
  | freed (verdict : Verdict D.Artifact)
  /-- It has written its line. -/
  | logged (verdict : Verdict D.Artifact)
  /-- It has reported, and is over. -/
  | reported (verdict : Verdict D.Artifact)
  /-- It was taken down by a panic and never reports. -/
  | died (panic : Panic)

/-- A thread of a worker: the call that started it, the slot it runs and the token it looks at. -/
structure Thread {σ : Type} (D : Domain σ) where
  call : Nat
  slot : Nat
  problem : D.Problem
  token : Token
  phase : ThreadPhase D := .starting

/-- Where a call for a race stands. -/
inductive CallPhase {σ : Type} (D : Domain σ) where
  | arriving
  /-- It waits for workers of an earlier race. -/
  | waiting
  /-- It is about to claim the slot `next`; it holds `claimed` and found `busy` others. -/
  | claiming (next : Nat) (claimed : List Nat) (busy : Nat)
  /-- It has marked the slot `next` and asks its worker. -/
  | asking (next : Nat) (claimed : List Nat) (busy : Nat)
  /-- It is about to register one token for each claimed slot. -/
  | registering (claimed : List Nat)
  /-- It has registered, and is about to look whether it was called off. -/
  | registered (claimed : List (Nat × Token)) (abort : Token)
  /-- It was called off before its start, and hands its slots back. -/
  | handingBack (claimed : List Nat)
  | launching (rest : List (Nat × Token)) (places : List (Option Pending)) (failures launched : Nat)
      (abort : Token)
  | collecting (collector : Collector) (abort : Token)
  /-- It is about to signal every worker of its race. -/
  | signalling (outcome : Outcome D.Artifact)
  /-- It is about to give the racing flag back. -/
  | leaving (ending : Ending D.Artifact)
  | ended (ending : Ending D.Artifact)

/-- A call for a race. -/
structure Call {σ : Type} (D : Domain σ) where
  problem : D.Problem
  phase : CallPhase D := .arriving

/-- A coordinator, its callers and its threads. Calls and threads that are over stay in the
lists. -/
structure Machine {σ : Type} (D : Domain σ) where
  slots : List (Slot D)
  waits : Waits := {}
  /-- Whether runs are written into a timing log. -/
  logs : Bool := false
  flight : Flight := {}
  flags : Flags := { raised := [false] }
  calls : List (Call D) := []
  threads : List (Thread D) := []
  log : List LogEntry := []
  shared : σ

/-- What can happen next. -/
inductive Event {σ : Type} (D : Domain σ) where
  /-- Someone asks for a race. -/
  | arrive (problem : D.Problem)
  /-- A call takes its next step. -/
  | call (index : Nat)
  /-- The wait of a call for earlier workers is over, whether they are free or not. -/
  | expire (index : Nat)
  /-- The system refuses to start the next thread of a call. -/
  | refuse (index : Nat)
  /-- A thread takes its next step. -/
  | thread (index : Nat)
  /-- Someone calls the race off. -/
  | abort

namespace Machine

variable {σ : Type} {D : Domain σ}

/-- The coordinator of a pool. -/
def ofWorkers (workers : List (Worker D)) (waits : Waits) (logs : Bool) (shared : σ) : Machine D :=
  { slots := workers.map fun worker => { worker }, waits, logs, shared }

/-- The ids of the workers, in pool order. -/
def workerIds (m : Machine D) : List Nat := m.slots.map (·.worker.id)

/-- Whether a race is in flight. -/
def isRacing (m : Machine D) : Bool := m.flight.racing

/-- Mark a slot as claimed or free. -/
def setBusy (m : Machine D) (slot : Nat) (busy : Bool) : Machine D :=
  { m with slots := m.slots.modify slot fun s => { s with busy } }

/-- Move a call to another phase. -/
def setCall (m : Machine D) (index : Nat) (phase : CallPhase D) : Machine D :=
  { m with calls := m.calls.modify index fun c => { c with phase } }

/-- Move a thread to another phase. -/
def setThread (m : Machine D) (index : Nat) (phase : ThreadPhase D) : Machine D :=
  { m with threads := m.threads.modify index fun t => { t with phase } }

/-- Signal every worker of the race in flight. -/
def stopAll (m : Machine D) : Machine D :=
  { m with flags := (m.flight.bridge.stopAll m.flags).2 }

/-- Take the racing flag for a new race with a bridge and an abort flag of its own. -/
def beginFlight (m : Machine D) : Machine D :=
  let (abort, flags) := m.flags.fresh
  { m with flags, flight := { racing := true, bridge := {}, abort } }

/-- Give the racing flag back. -/
def endFlight (m : Machine D) : Machine D := { m with flight := { m.flight with racing := false } }

/-- Call the race in flight off. The answer is whether there was one. -/
def abort (m : Machine D) : Bool × Machine D :=
  if m.flight.racing then
    (true, { m with flags := m.flags.request m.flight.abort }.stopAll)
  else (false, m)

/-- What the place of a thread shows. -/
def look (m : Machine D) (pending : Pending) : Look D.Artifact :=
  match m.threads[pending.thread]? with
  | some { phase := .reported verdict, .. } => .ready verdict
  | some { phase := .died _, .. } => .vanished
  | _ => .empty

/-- Where a call goes when every slot was looked at. -/
def afterClaims (claimed : List Nat) (busy : Nat) : CallPhase D :=
  if claimed.isEmpty then
    if busy > 0 then .leaving (.refused (.workersBusy busy))
    else .leaving (.outcome .noneEligible)
  else .registering claimed

/-- Register one token for each claimed slot with the race in flight. -/
def register (m : Machine D) (index : Nat) (claimed : List Nat) : Machine D :=
  let (tokens, bridge, flags) := m.flight.bridge.registerMany m.flags claimed.length
  let m := { m with flags, flight := { m.flight with bridge } }
  m.setCall index (.registered (claimed.zip tokens) m.flight.abort)

/-- Ask the worker of a slot whether it takes the problem of a call on. A slot whose worker does not
is free again; a panic ends the call and leaves the slots marked. -/
def ask (m : Machine D) (index : Nat) (problem : D.Problem) (next : Nat) (claimed : List Nat)
    (busy : Nat) (slot : Slot D) : Machine D :=
  match slot.worker.asks problem m.shared with
  | (.accepts, shared) =>
    { m with shared }.setCall index (.claiming (next + 1) (claimed ++ [next]) busy)
  | (.refuses, shared) =>
    ({ m with shared }.setBusy next false).setCall index (.claiming (next + 1) claimed busy)
  | (.undecided, shared) => { m with shared }
  | (.panics panic, shared) => { m with shared }.setCall index (.leaving (.panicked panic))

/-- Start the thread of a claimed slot. -/
def launch (m : Machine D) (index : Nat) (problem : D.Problem) (slot : Nat) (token : Token)
    (rest : List (Nat × Token)) (places : List (Option Pending)) (failures launched : Nat)
    (abort : Token) : Machine D :=
  let pending := (m.slots[slot]?).map fun s => Pending.mk s.worker.id m.threads.length
  let thread : Thread D := { call := index, slot, problem, token }
  { m with threads := m.threads ++ [thread] }.setCall index
    (.launching rest (places ++ [pending]) failures launched abort)

/-- The next step of the call of an index. Nothing happens when there is none to take. -/
def stepCall (m : Machine D) (index : Nat) : Option (Machine D) := do
  let call ← m.calls[index]?
  match call.phase with
  | .arriving =>
    if m.flight.racing then return m.setCall index (.ended (.refused .alreadyRacing))
    else
      let first := if m.waits.busy = 0 then .claiming 0 [] 0 else .waiting
      return m.beginFlight.setCall index first
  | .waiting =>
    if m.slots.any (·.busy) then none else return m.setCall index (.claiming 0 [] 0)
  | .claiming next claimed busy =>
    match m.slots[next]? with
    | none => return m.setCall index (afterClaims claimed busy)
    | some slot =>
      if slot.busy then return m.setCall index (.claiming (next + 1) claimed (busy + 1))
      else return (m.setBusy next true).setCall index (.asking next claimed busy)
  | .asking next claimed busy =>
    let slot ← m.slots[next]?
    if slot.locked then none else return m.ask index call.problem next claimed busy slot
  | .registering claimed => return m.register index claimed
  | .registered claimed abort =>
    if m.flags.isStopped abort then return m.setCall index (.handingBack (claimed.map (·.1)))
    else return m.setCall index (.launching claimed [] 0 claimed.length abort)
  | .handingBack [] => return m.setCall index (.leaving (.outcome .aborted))
  | .handingBack (slot :: rest) => return (m.setBusy slot false).setCall index (.handingBack rest)
  | .launching [] places failures launched abort =>
    return m.setCall index (.collecting (.ofPlaces places failures launched) abort)
  | .launching ((slot, token) :: rest) places failures launched abort =>
    return m.launch index call.problem slot token rest places failures launched abort
  | .collecting collector abort =>
    match collector.step (m.flags.isStopped abort) m.look with
    | .goesOn collector => return m.setCall index (.collecting collector abort)
    | .decided .allFailed => return m.setCall index (.leaving (.outcome .allFailed))
    | .decided outcome => return m.setCall index (.signalling outcome)
  | .signalling outcome => return m.stopAll.setCall index (.leaving (.outcome outcome))
  | .leaving ending => return m.endFlight.setCall index (.ended ending)
  | .ended _ => none

/-- The wait of a call for workers of an earlier race is over. -/
def expire (m : Machine D) (index : Nat) : Option (Machine D) := do
  let call ← m.calls[index]?
  match call.phase with
  | .waiting => return m.setCall index (.claiming 0 [] 0)
  | _ => none

/-- The next thread of a call is not started: its slot is free again, and it counts as failed. -/
def refuse (m : Machine D) (index : Nat) : Option (Machine D) := do
  let call ← m.calls[index]?
  match call.phase with
  | .launching ((slot, _) :: rest) places failures launched abort =>
    return (m.setBusy slot false).setCall index
      (.launching rest places (failures + 1) launched abort)
  | _ => none

/-- Take or let go of the worker of a slot. -/
def setLocked (m : Machine D) (slot : Nat) (locked : Bool) : Machine D :=
  { m with slots := m.slots.modify slot fun s => { s with locked } }

/-- Put a worker back into its slot. -/
def setWorker (m : Machine D) (slot : Nat) (worker : Worker D) : Machine D :=
  { m with slots := m.slots.modify slot fun s => { s with worker } }

/-- One step of the run that a thread makes with the worker it holds. -/
def stepRun (m : Machine D) (index : Nat) (thread : Thread D) (slot : Slot D)
    (phase : RunPhase D) : Machine D :=
  match phase with
  | .finished verdict => (m.setLocked thread.slot false).setThread index (.unlocked verdict)
  | .died panic => (m.setLocked thread.slot false).setThread index (.died panic)
  | phase =>
    let ((phase, worker), shared) :=
      slot.worker.step thread.problem (m.flags.isStopped thread.token) phase m.shared
    ({ m with shared }.setWorker thread.slot worker).setThread index (.running phase)

/-- The next step of the thread of an index. -/
def stepThread (m : Machine D) (index : Nat) : Option (Machine D) := do
  let thread ← m.threads[index]?
  let slot ← m.slots[thread.slot]?
  match thread.phase with
  | .starting =>
    if slot.locked then none
    else return (m.setLocked thread.slot true).setThread index (.running .entered)
  | .running phase => return m.stepRun index thread slot phase
  | .unlocked verdict => return (m.setBusy thread.slot false).setThread index (.freed verdict)
  | .freed verdict =>
    let log := if m.logs then m.log ++ [⟨slot.worker.id, !verdict.isSuccess, index⟩] else m.log
    return { m with log }.setThread index (.logged verdict)
  | .logged verdict => return m.setThread index (.reported verdict)
  | .reported _ => none
  | .died _ => none

/-- Make an event happen; there is no answer for an event that cannot happen now. -/
def step (m : Machine D) : Event D → Option (Machine D)
  | .arrive problem => some { m with calls := m.calls ++ [{ problem }] }
  | .call index => m.stepCall index
  | .expire index => m.expire index
  | .refuse index => m.refuse index
  | .thread index => m.stepThread index
  | .abort => some m.abort.2

/-- Make events happen one after another. -/
def steps (m : Machine D) (events : List (Event D)) : Option (Machine D) := events.foldlM step m

/-- How the call of an index ended, if it has. -/
def ending? (m : Machine D) (index : Nat) : Option (Ending D.Artifact) :=
  match m.calls[index]? with
  | some { phase := .ended ending, .. } => some ending
  | _ => none

end Machine

end MotionRace
