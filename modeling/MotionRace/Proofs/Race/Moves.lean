import MotionRace.Race.Machine

/-!
# What a step of a machine can do

`Machine.step` says what an event leads to by looking at the phase of whoever moves. Here the same
is said once, move by move: every step is somebody's arrival, an abort, or a move of one call or of
one thread. A move has an effect on what is shared and takes its owner from one phase to another.
An invariant is shown to hold by going through these moves, and never by unfolding the step again.

Main statement: `move_of_step`, every step is a move.
-/

namespace MotionRace.Machine

variable {σ : Type} {D : Domain σ}

/-- The tokens a race gets when it registers so many workers. -/
def newTokens (m : Machine D) (count : Nat) : List Token :=
  (m.flight.bridge.registerMany m.flags count).1

/-- The machine after so many workers were registered with the race in flight. -/
def enroll (m : Machine D) (count : Nat) : Machine D :=
  { m with
    flags := (m.flight.bridge.registerMany m.flags count).2.2
    flight := { m.flight with bridge := (m.flight.bridge.registerMany m.flags count).2.1 } }

/-- The machine with one more thread. -/
def addThread (m : Machine D) (thread : Thread D) : Machine D :=
  { m with threads := m.threads ++ [thread] }

/-- The machine with other things shared by the parts of its domain. -/
def share (m : Machine D) (shared : σ) : Machine D := { m with shared }

/-- The place in which the next thread will report, if its slot exists. -/
def nextPlace (m : Machine D) (slot : Nat) : Option Pending :=
  (m.slots[slot]?).map fun s => ⟨s.worker.id, m.threads.length⟩

/-- What a worker answers when it is asked. -/
def answer (m : Machine D) (slot : Slot D) (problem : D.Problem) : Eligibility :=
  (slot.worker.asks problem m.shared).1

/-- What the parts of the domain share after a worker was asked. -/
def afterAsking (m : Machine D) (slot : Slot D) (problem : D.Problem) : Machine D :=
  m.share (slot.worker.asks problem m.shared).2

/-- The phase of a call. One that has not come yet is arriving. -/
def phaseOf (m : Machine D) (index : Nat) : CallPhase D :=
  (m.calls[index]?).elim .arriving (·.phase)

/-- A move of a call: the event, the phase it leaves, the effect on everything but the calls, and
the phase it enters. -/
inductive CallMove (m : Machine D) (index : Nat) (problem : D.Problem) :
    Event D → CallPhase D → Machine D → CallPhase D → Prop where
  | turnedAway (racing : m.flight.racing = true) :
    CallMove m index problem (.call index) .arriving m (.ended (.refused .alreadyRacing))
  | begins (idle : m.flight.racing = false) :
    CallMove m index problem (.call index) .arriving m.beginFlight .waiting
  | beginsAtOnce (idle : m.flight.racing = false) :
    CallMove m index problem (.call index) .arriving m.beginFlight (.claiming 0 [] 0)
  | waited : CallMove m index problem (.call index) .waiting m (.claiming 0 [] 0)
  | expires : CallMove m index problem (.expire index) .waiting m (.claiming 0 [] 0)
  | claimsOver {next claimed busy} (beyond : m.slots[next]? = none) :
    CallMove m index problem (.call index) (.claiming next claimed busy) m
      (afterClaims claimed busy)
  | passesOver {next claimed busy slot} (there : m.slots[next]? = some slot)
      (taken : slot.busy = true) :
    CallMove m index problem (.call index) (.claiming next claimed busy) m
      (.claiming (next + 1) claimed (busy + 1))
  | claims {next claimed busy slot} (there : m.slots[next]? = some slot)
      (free : slot.busy = false) :
    CallMove m index problem (.call index) (.claiming next claimed busy) (m.setBusy next true)
      (.asking next claimed busy)
  | accepted {next claimed busy slot} (there : m.slots[next]? = some slot)
      (unlocked : slot.locked = false) (yes : m.answer slot problem = .accepts) :
    CallMove m index problem (.call index) (.asking next claimed busy)
      (m.afterAsking slot problem) (.claiming (next + 1) (claimed ++ [next]) busy)
  | declined {next claimed busy slot} (there : m.slots[next]? = some slot)
      (unlocked : slot.locked = false) (no : m.answer slot problem = .refuses) :
    CallMove m index problem (.call index) (.asking next claimed busy)
      ((m.afterAsking slot problem).setBusy next false) (.claiming (next + 1) claimed busy)
  | undecided {next claimed busy slot} (there : m.slots[next]? = some slot)
      (unlocked : slot.locked = false) (unclear : m.answer slot problem = .undecided) :
    CallMove m index problem (.call index) (.asking next claimed busy)
      (m.afterAsking slot problem) (.asking next claimed busy)
  | panics {next claimed busy slot panic} (there : m.slots[next]? = some slot)
      (unlocked : slot.locked = false) (down : m.answer slot problem = .panics panic) :
    CallMove m index problem (.call index) (.asking next claimed busy)
      (m.afterAsking slot problem) (.leaving (.panicked panic))
  | registers {claimed} :
    CallMove m index problem (.call index) (.registering claimed) (m.enroll claimed.length)
      (.registered (claimed.zip (m.newTokens claimed.length)) m.flight.abort)
  | calledOff {claimed abort} (stopped : m.flags.isStopped abort = true) :
    CallMove m index problem (.call index) (.registered claimed abort) m
      (.handingBack (claimed.map (·.1)))
  | goesAhead {claimed abort} (unstopped : m.flags.isStopped abort = false) :
    CallMove m index problem (.call index) (.registered claimed abort) m
      (.launching claimed [] 0 claimed.length abort)
  | handedBack :
    CallMove m index problem (.call index) (.handingBack []) m (.leaving (.outcome .aborted))
  | handsBack {slot rest} :
    CallMove m index problem (.call index) (.handingBack (slot :: rest)) (m.setBusy slot false)
      (.handingBack rest)
  | launched {places failures launched abort} :
    CallMove m index problem (.call index) (.launching [] places failures launched abort) m
      (.collecting (.ofPlaces places failures launched) abort)
  | launches {slot token rest places failures launched abort} :
    CallMove m index problem (.call index)
      (.launching ((slot, token) :: rest) places failures launched abort)
      (m.addThread { call := index, slot, problem, token })
      (.launching rest (places ++ [m.nextPlace slot]) failures launched abort)
  | notStarted {slot token rest places failures launched abort} :
    CallMove m index problem (.refuse index)
      (.launching ((slot, token) :: rest) places failures launched abort) (m.setBusy slot false)
      (.launching rest places (failures + 1) launched abort)
  | collects {c next : Collector} {abort}
      (looked : c.step (m.flags.isStopped abort) m.look = .goesOn next) :
    CallMove m index problem (.call index) (.collecting c abort) m (.collecting next abort)
  | loses {c : Collector} {abort}
      (decided : c.step (m.flags.isStopped abort) m.look = .decided .allFailed) :
    CallMove m index problem (.call index) (.collecting c abort) m
      (.leaving (.outcome .allFailed))
  | decides {c : Collector} {abort outcome}
      (decided : c.step (m.flags.isStopped abort) m.look = .decided outcome)
      (other : outcome ≠ .allFailed) :
    CallMove m index problem (.call index) (.collecting c abort) m (.signalling outcome)
  | signals {outcome} :
    CallMove m index problem (.call index) (.signalling outcome) m.stopAll
      (.leaving (.outcome outcome))
  | leaves {ending} :
    CallMove m index problem (.call index) (.leaving ending) m.endFlight (.ended ending)

/-- A move of a thread: the phase it leaves, the effect on everything but the threads, and the phase
it enters. -/
inductive ThreadMove (m : Machine D) (index : Nat) (thread : Thread D) (slot : Slot D) :
    ThreadPhase D → Machine D → ThreadPhase D → Prop where
  | locks (unlocked : slot.locked = false) :
    ThreadMove m index thread slot .starting (m.setLocked thread.slot true) (.running .entered)
  | runs {phase : RunPhase D} (goesOn : Worker.RunPhase.ending? phase = none) :
    ThreadMove m index thread slot (.running phase)
      ((m.share (slot.worker.step thread.problem (m.flags.isStopped thread.token) phase
        m.shared).2).setWorker thread.slot (slot.worker.step thread.problem
          (m.flags.isStopped thread.token) phase m.shared).1.2)
      (.running (slot.worker.step thread.problem (m.flags.isStopped thread.token) phase
        m.shared).1.1)
  | finishes {verdict} :
    ThreadMove m index thread slot (.running (.finished verdict)) (m.setLocked thread.slot false)
      (.unlocked verdict)
  | dies {panic} :
    ThreadMove m index thread slot (.running (.died panic)) (m.setLocked thread.slot false)
      (.died panic)
  | frees {verdict} :
    ThreadMove m index thread slot (.unlocked verdict) (m.setBusy thread.slot false)
      (.freed verdict)
  | logs {verdict} {log : List LogEntry}
      (line : log = if m.logs then
        m.log ++ [⟨slot.worker.id, !verdict.isSuccess, index⟩] else m.log) :
    ThreadMove m index thread slot (.freed verdict) { m with log } (.logged verdict)
  | reports {verdict} :
    ThreadMove m index thread slot (.logged verdict) m (.reported verdict)

/-- A move of the machine, and what it leads to. -/
inductive Move (m : Machine D) : Event D → Machine D → Prop where
  | arrives (problem : D.Problem) :
    Move m (.arrive problem) { m with calls := m.calls ++ [{ problem }] }
  | ofCall {index problem event before effect after}
      (there : m.calls[index]? = some ⟨problem, before⟩)
      (move : CallMove m index problem event before effect after) :
    Move m event (effect.setCall index after)
  | ofThread {index thread slot effect after} (there : m.threads[index]? = some thread)
      (housed : m.slots[thread.slot]? = some slot)
      (move : ThreadMove m index thread slot thread.phase effect after) :
    Move m (.thread index) (effect.setThread index after)
  | aborts : Move m .abort m.abort.2

/-! ## What a move leaves alone -/

section Frame

variable {m effect : Machine D} {index : Nat} {problem : D.Problem} {event : Event D}
  {before after : CallPhase D} {thread : Thread D} {housed : Slot D} {phase later : ThreadPhase D}

theorem CallMove.ne_abort (move : CallMove m index problem event before effect after) :
    event ≠ .abort := by
  rintro rfl
  cases move

theorem CallMove.calls_eq (move : CallMove m index problem event before effect after) :
    effect.calls = m.calls := by
  cases move <;> rfl

/-- A move of a call starts at most one thread: that of the next slot to be launched. -/
theorem CallMove.threads_cases (move : CallMove m index problem event before effect after) :
    effect.threads = m.threads ∨
      ∃ slot token rest places failures launched abort,
        before = .launching ((slot, token) :: rest) places failures launched abort ∧
        effect = m.addThread { call := index, slot, problem, token } := by
  cases move with
  | launches => exact .inr ⟨_, _, _, _, _, _, _, rfl, rfl⟩
  | _ => exact .inl rfl

theorem ThreadMove.calls_eq (move : ThreadMove m index thread housed phase effect later) :
    effect.calls = m.calls := by
  cases move <;> rfl

theorem ThreadMove.threads_eq (move : ThreadMove m index thread housed phase effect later) :
    effect.threads = m.threads := by
  cases move <;> rfl

theorem ThreadMove.flight_eq (move : ThreadMove m index thread housed phase effect later) :
    effect.flight = m.flight := by
  cases move <;> rfl

theorem ThreadMove.flags_eq (move : ThreadMove m index thread housed phase effect later) :
    effect.flags = m.flags := by
  cases move <;> rfl

/-! An abort raises flags and changes nothing else. -/

@[simp] theorem slots_abort (m : Machine D) : m.abort.2.slots = m.slots := by
  unfold abort; split <;> rfl

@[simp] theorem calls_abort (m : Machine D) : m.abort.2.calls = m.calls := by
  unfold abort; split <;> rfl

@[simp] theorem threads_abort (m : Machine D) : m.abort.2.threads = m.threads := by
  unfold abort; split <;> rfl

@[simp] theorem flight_abort (m : Machine D) : m.abort.2.flight = m.flight := by
  unfold abort; split <;> rfl

/-- The call that moved is in its new phase. -/
theorem calls_setCall_self (same : effect.calls = m.calls)
    (there : m.calls[index]? = some ⟨problem, before⟩) (after : CallPhase D) :
    (effect.setCall index after).calls[index]? = some ⟨problem, after⟩ := by
  simp only [setCall, same, List.getElem?_modify, there, if_true, Option.map_eq_map,
    Option.map_some]

/-- The other calls are where they were. -/
theorem calls_setCall_ne (same : effect.calls = m.calls) {other : Nat} (apart : index ≠ other)
    (after : CallPhase D) : (effect.setCall index after).calls[other]? = m.calls[other]? := by
  simp only [setCall, same, List.getElem?_modify_ne _ _ apart]

theorem phaseOf_eq (there : m.calls[index]? = some ⟨problem, before⟩) :
    m.phaseOf index = before := by
  simp only [phaseOf, there, Option.elim_some]

theorem phaseOf_setCall_self (same : effect.calls = m.calls)
    (there : m.calls[index]? = some ⟨problem, before⟩) (after : CallPhase D) :
    (effect.setCall index after).phaseOf index = after :=
  phaseOf_eq (calls_setCall_self same there after)

theorem phaseOf_setCall_ne (same : effect.calls = m.calls) {other : Nat} (apart : index ≠ other)
    (after : CallPhase D) : (effect.setCall index after).phaseOf other = m.phaseOf other := by
  simp only [phaseOf, calls_setCall_ne same apart]

/-- The thread that moved is in its new phase. -/
theorem threads_setThread_self (same : effect.threads = m.threads)
    (there : m.threads[index]? = some thread) (later : ThreadPhase D) :
    (effect.setThread index later).threads[index]? = some { thread with phase := later } := by
  simp only [setThread, same, List.getElem?_modify, there, if_true, Option.map_eq_map,
    Option.map_some]

/-- The other threads are where they were. -/
theorem threads_setThread_ne (same : effect.threads = m.threads) {other : Nat}
    (apart : index ≠ other) (later : ThreadPhase D) :
    (effect.setThread index later).threads[other]? = m.threads[other]? := by
  simp only [setThread, same, List.getElem?_modify_ne _ _ apart]

/-- Only its own moves take a thread to another phase. -/
theorem Move.threads_eq {m next : Machine D} {event : Event D} {index : Nat} {thread : Thread D}
    (move : Move m event next) (there : m.threads[index]? = some thread)
    (other : event ≠ .thread index) : next.threads[index]? = some thread := by
  cases move with
  | arrives => exact there
  | @ofCall _ _ _ _ effect _ _ move =>
    change effect.threads[index]? = some thread
    rcases move.threads_cases with same | ⟨_, _, _, _, _, _, _, -, rfl⟩
    · rw [same, there]
    · have inside := (List.getElem?_eq_some_iff.mp there).1
      simp only [addThread, List.getElem?_append_left inside, there]
  | ofThread there' housed move =>
    have apart := fun same => other (congrArg Event.thread same)
    rw [threads_setThread_ne move.threads_eq apart, there]
  | aborts => rw [threads_abort, there]

end Frame

/-! ## Every step is a move -/

/-- Leaving a call in its phase changes nothing. -/
theorem setCall_same {m : Machine D} {index : Nat} {problem : D.Problem} {phase : CallPhase D}
    (there : m.calls[index]? = some ⟨problem, phase⟩) : m.setCall index phase = m := by
  have same : m.calls.modify index (fun c => { c with phase }) = m.calls := by
    apply List.ext_getElem?
    intro other
    rw [List.getElem?_modify]
    split
    · next h => subst h; simp [there]
    · simp
  simp only [setCall, same]

/-- What asking a worker leads to, by its answer. -/
theorem ask_eq (m : Machine D) (index : Nat) (problem : D.Problem) (next : Nat)
    (claimed : List Nat) (busy : Nat) (slot : Slot D) :
    m.ask index problem next claimed busy slot =
      match m.answer slot problem with
      | .accepts =>
        (m.afterAsking slot problem).setCall index (.claiming (next + 1) (claimed ++ [next]) busy)
      | .refuses =>
        ((m.afterAsking slot problem).setBusy next false).setCall index
          (.claiming (next + 1) claimed busy)
      | .undecided => m.afterAsking slot problem
      | .panics panic =>
        (m.afterAsking slot problem).setCall index (.leaving (.panicked panic)) := by
  unfold ask answer afterAsking
  rcases slot.worker.asks problem m.shared with ⟨_ | _ | _ | _, shared⟩ <;> rfl

private theorem move_of_ask {m : Machine D} {index next busy : Nat} {problem : D.Problem}
    {claimed : List Nat} {slot : Slot D}
    (there : m.calls[index]? = some ⟨problem, .asking next claimed busy⟩)
    (housed : m.slots[next]? = some slot) (unlocked : slot.locked = false) :
    Move m (.call index) (m.ask index problem next claimed busy slot) := by
  rw [ask_eq]
  cases reply : m.answer slot problem with
  | accepts => exact .ofCall there (.accepted housed unlocked reply)
  | refuses => exact .ofCall there (.declined housed unlocked reply)
  | undecided =>
    have stays : (m.afterAsking slot problem).calls[index]? = m.calls[index]? := rfl
    have move := Move.ofCall there (.undecided housed unlocked reply)
    rwa [setCall_same (stays.trans there)] at move
  | panics panic => exact .ofCall there (.panics housed unlocked reply)

private theorem move_of_stepCall {m m' : Machine D} {index : Nat}
    (h : m.stepCall index = some m') : Move m (.call index) m' := by
  unfold stepCall at h
  obtain ⟨⟨problem, phase⟩, there, h⟩ := Option.bind_eq_some_iff.mp h
  cases phase with
  | arriving =>
    cases racing : m.flight.racing with
    | true =>
      simp only [racing, if_true] at h
      cases h
      exact .ofCall there (.turnedAway racing)
    | false =>
      simp only [racing, Bool.false_eq_true, if_false] at h
      split at h
      · cases h
        exact .ofCall there (.beginsAtOnce racing)
      · cases h
        exact .ofCall there (.begins racing)
  | waiting =>
    dsimp only at h
    split at h
    · cases h
    · cases h
      exact .ofCall there .waited
  | claiming next claimed busy =>
    dsimp only at h
    split at h
    next beyond =>
      cases h
      exact .ofCall there (.claimsOver beyond)
    next slot housed =>
      split at h
      next taken =>
        cases h
        exact .ofCall there (.passesOver housed taken)
      next free =>
        cases h
        exact .ofCall there (.claims housed (Bool.eq_false_iff.mpr free))
  | asking next claimed busy =>
    obtain ⟨slot, housed, h⟩ := Option.bind_eq_some_iff.mp h
    split at h
    · cases h
    · next unlocked =>
      cases h
      exact move_of_ask there housed (Bool.eq_false_iff.mpr unlocked)
  | registering claimed =>
    cases h
    exact .ofCall there .registers
  | registered claimed abort =>
    dsimp only at h
    split at h
    next stopped =>
      cases h
      exact .ofCall there (.calledOff stopped)
    next unstopped =>
      cases h
      exact .ofCall there (.goesAhead (Bool.eq_false_iff.mpr unstopped))
  | handingBack claimed =>
    cases claimed with
    | nil => cases h; exact .ofCall there .handedBack
    | cons slot rest => cases h; exact .ofCall there .handsBack
  | launching rest places failures launched abort =>
    cases rest with
    | nil => cases h; exact .ofCall there .launched
    | cons first rest => cases h; exact .ofCall there .launches
  | collecting c abort =>
    dsimp only at h
    split at h
    next next looked =>
      cases h
      exact .ofCall there (.collects looked)
    next lost =>
      cases h
      exact .ofCall there (.loses lost)
    next outcome other decided =>
      cases h
      exact .ofCall there (.decides decided other)
  | signalling outcome => cases h; exact .ofCall there .signals
  | leaving ending => cases h; exact .ofCall there .leaves
  | ended ending => cases h

private theorem move_of_expire {m m' : Machine D} {index : Nat}
    (h : m.expire index = some m') : Move m (.expire index) m' := by
  unfold expire at h
  obtain ⟨⟨problem, phase⟩, there, h⟩ := Option.bind_eq_some_iff.mp h
  cases phase with
  | waiting => cases h; exact .ofCall there .expires
  | _ => cases h

private theorem move_of_refuse {m m' : Machine D} {index : Nat}
    (h : m.refuse index = some m') : Move m (.refuse index) m' := by
  unfold refuse at h
  obtain ⟨⟨problem, phase⟩, there, h⟩ := Option.bind_eq_some_iff.mp h
  cases phase with
  | launching rest places failures launched abort =>
    cases rest with
    | nil => cases h
    | cons first rest => cases h; exact .ofCall there .notStarted
  | _ => cases h

private theorem move_of_stepThread {m m' : Machine D} {index : Nat}
    (h : m.stepThread index = some m') : Move m (.thread index) m' := by
  unfold stepThread at h
  obtain ⟨⟨call, place, problem, token, phase⟩, there, h⟩ := Option.bind_eq_some_iff.mp h
  obtain ⟨slot, housed, h⟩ := Option.bind_eq_some_iff.mp h
  cases phase with
  | starting =>
    dsimp only at h
    split at h
    · cases h
    · next unlocked =>
      cases h
      exact .ofThread there housed (.locks (Bool.eq_false_iff.mpr unlocked))
  | running phase =>
    cases phase with
    | finished verdict => cases h; exact .ofThread there housed .finishes
    | died panic => cases h; exact .ofThread there housed .dies
    | entered => cases h; exact .ofThread there housed (.runs rfl)
    | copying => cases h; exact .ofThread there housed (.runs rfl)
    | solving session rest => cases h; exact .ofThread there housed (.runs rfl)
  | unlocked verdict => cases h; exact .ofThread there housed .frees
  | freed verdict => cases h; exact .ofThread there housed (.logs rfl)
  | logged verdict => cases h; exact .ofThread there housed .reports
  | reported verdict => cases h
  | died panic => cases h

/-- Every step is a move. -/
theorem move_of_step {m m' : Machine D} {event : Event D} (h : m.step event = some m') :
    Move m event m' := by
  cases event with
  | arrive problem => cases h; exact .arrives problem
  | call index => exact move_of_stepCall h
  | expire index => exact move_of_expire h
  | refuse index => exact move_of_refuse h
  | thread index => exact move_of_stepThread h
  | abort => cases h; exact .aborts

end MotionRace.Machine
