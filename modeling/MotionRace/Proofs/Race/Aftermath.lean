import MotionRace.Proofs.Race.Books
import MotionRace.Proofs.Race.Progress

/-!
# What a race leaves behind

A race that was won or called off has asked every thread it started to stop. A race that was lost
has seen them all come to an end, and a thread marks its slot as free before it reports, so the next
race finds each of these slots free and claims it again. What a thread reports is looked at and
counted by its own race alone.

Main statement: `aftermath_of_race`.
-/

namespace MotionRace

variable {σ : Type} {D : Domain σ}

/-- Whether a race that ended so asked the threads that it started to stop. -/
def Ending.isSignalled {α : Type} : Ending α → Bool
  | .outcome (.succeeded ..) => true
  | .outcome .aborted => true
  | _ => false

/-- Whether a call in a phase has signalled and is on its way back. -/
def CallPhase.isSignalled : CallPhase D → Bool
  | .leaving ending => ending.isSignalled
  | .ended ending => ending.isSignalled
  | _ => false

/-- Whether the pass of a call has come past a slot: it has asked the worker or passed it over. A
call that was turned away or that a panic took down has no pass to speak of. -/
def CallPhase.isPast (slot : Nat) : CallPhase D → Bool
  | .arriving => false
  | .waiting => false
  | .claiming next _ _ => slot < next
  | .asking next _ _ => slot ≤ next
  | .leaving ending => ending.hadFlight && !ending.isPanic
  | .ended ending => ending.hadFlight && !ending.isPanic
  | _ => true

/-- How many steps the pass of a call in a phase has left. -/
def CallPhase.passLeft (size : Nat) : CallPhase D → Nat
  | .waiting => 2 * size + 1
  | .claiming next _ _ => 2 * (size - next)
  | .asking next _ _ => 2 * (size - next) - 1
  | _ => 0

/-- A thread that is over and did not succeed has reported its failure, if it was not taken down. -/
theorem ThreadPhase.reported_of_failed {phase : ThreadPhase D} (failed : phase.hasFailed = true)
    (up : phase.isDown = false) : ∃ reason, phase = .reported (.failure reason) := by
  cases phase with
  | reported verdict =>
    cases verdict with
    | failure reason => exact ⟨reason, rfl⟩
    | success artifact => cases failed
  | died panic => cases up
  | _ => cases failed

theorem Ending.Accounts.mem_of_past {α : Type} {slots slot : Nat} {asked kept passed : List Nat}
    {ending : Ending α} (account : ending.Accounts slots asked kept passed) (inside : slot < slots)
    (past : (ending.hadFlight && !ending.isPanic) = true) : slot ∈ asked ∨ slot ∈ passed := by
  obtain ⟨flown, whole⟩ := Bool.and_eq_true_iff.mp past
  refine (account.dealt flown fun panic same => ?_).mem_iff.mp inside
  rw [same] at whole
  cases whole

/-- A pass that has come past a slot has dealt with it. -/
theorem CallPhase.Accounts.mem_of_past {slots slot : Nat} {asked kept passed : List Nat}
    {phase : CallPhase D} (account : phase.Accounts slots asked kept passed)
    (inside : slot < slots) (past : phase.isPast slot = true) : slot ∈ asked ∨ slot ∈ passed := by
  cases phase with
  | arriving | waiting => cases past
  | claiming next => exact account.1.mem_iff.mp (of_decide_eq_true past)
  | asking next =>
    obtain ⟨⟨former, rfl, dealt⟩, -⟩ := account
    rcases Nat.lt_or_eq_of_le (of_decide_eq_true past) with before | rfl
    · exact (dealt.mem_iff.mp before).imp_left (List.mem_append_left _)
    · exact .inl (List.mem_append_right _ (List.mem_singleton_self slot))
  | leaving ending | ended ending => exact Ending.Accounts.mem_of_past account inside past
  | _ => exact account.1.mem_iff.mp inside

namespace Machine

/-- Whether every race that comes next claims a slot: it never finds the slot marked, it has asked
the worker as soon as its pass has come past the slot, and its pass does come there if the workers
answer. -/
def ClaimedNext (m : Machine D) (slot : Nat) : Prop :=
  ∀ index during later, m.phaseOf index = .arriving →
    m.steps (.call index :: during) = some later →
    slot ∉ m.passedBy index (.call index :: during) ∧
    ((later.phaseOf index).isPast slot = true → slot ∈ m.askedBy index (.call index :: during)) ∧
    ((∀ solver problem shared, (D.asks solver problem shared).1 = .accepts ∨
        (D.asks solver problem shared).1 = .refuses) →
      (later.phaseOf index).isDown = false →
      ∃ own last, (∀ event ∈ own, event.party? = some (.call index)) ∧
        later.steps own = some last ∧ slot ∈ m.askedBy index (.call index :: (during ++ own)))

section Moves

variable {m next effect : Machine D} {left : List Nat} {index slot runner : Nat}
  {problem : D.Problem} {event : Event D} {before after : CallPhase D} {thread : Thread D}

/-! ## Signals -/

theorem CallMove.signalled_cases (move : CallMove m index problem event before effect after)
    (signalled : after.isSignalled = true) :
    before.isSignalled = true ∨ before = .handingBack [] ∨
      ∃ outcome, before = .signalling outcome ∧ effect.flags = m.stopAll.flags := by
  cases move with
  | handedBack => exact .inr (.inl rfl)
  | signals => exact .inr (.inr ⟨_, rfl, rfl⟩)
  | leaves => exact .inl signalled
  | @claimsOver _ claimed busy => cases claimed <;> cases busy <;> cases signalled
  | _ => cases signalled

theorem CallPhase.quiet_of_signalled (signalled : before.isSignalled = true) :
    before.isLaunching = false := by
  cases before <;> first | rfl | cases signalled

/-- The threads of a race that has signalled are all asked to stop. -/
theorem stopped_of_signalled {workers : List (Worker D)} {waits : Waits} {logs : Bool} {shared : σ}
    {events : List (Event D)} (run : (ofWorkers workers waits logs shared).steps events = some m)
    (signalled : (m.phaseOf index).isSignalled = true) :
    ∀ thread ∈ m.threads, thread.call = index → m.flags.isStopped thread.token = true := by
  induction events, m, run using steps_induction with
  | nothing => cases signalled
  | more events m event next run step ih =>
    intro thread there mine
    have move := move_of_step step
    obtain ⟨runner, there⟩ := List.getElem?_of_mem there
    by_cases former : (m.phaseOf index).isSignalled = true
    · obtain ⟨phase, before⟩ :=
        move.own_thread_before (.inl (CallPhase.quiet_of_signalled former)) there mine
      have stopped := ih former _ (List.mem_of_getElem? before) mine
      exact move.isStopped_mono stopped
    · by_cases own : event.party? = some (.call index)
      · obtain ⟨problem, before, effect, after, placed, own, rfl⟩ := move.exists_callMove own
        have now : m.phaseOf index = before := phaseOf_eq placed
        rw [phaseOf_setCall_self own.calls_eq placed] at signalled
        rw [now] at former
        rcases own.signalled_cases signalled with already | rfl | ⟨outcome, rfl, raised⟩
        · exact absurd already former
        · obtain ⟨phase, before⟩ := move.own_thread_before (.inl (by rw [now]; rfl)) there mine
          have nobody := threadless_of_steps run (by rw [now]; rfl) { thread with phase }
          exact absurd mine (nobody (List.mem_of_getElem? before))
        · -- The bridge of the race in flight holds the token of every thread of that race.
          obtain ⟨phase, before⟩ := move.own_thread_before (.inl (by rw [now]; rfl)) there mine
          have fenced := fenced_of_steps run
          have flying : m.InFlight index := inFlight_iff.mpr (by rw [now]; rfl)
          have issued : m.Issued index thread.token :=
            .inr ⟨{ thread with phase }, List.mem_of_getElem? before, mine, rfl⟩
          have listed := fenced.own index thread.token flying issued
          show effect.flags.isStopped thread.token = true
          rw [raised]
          exact Flags.isStopped_foldl_of_mem listed (fenced.reached _ listed)
      · rw [move.phaseOf_eq own] at signalled
        exact absurd signalled former

/-! ## Slots -/

/-- A thread that moves in a slot that stays marked goes on holding it. -/
theorem ThreadMove.holds_of_busy {housed : Slot D} {phase later : ThreadPhase D}
    (move : ThreadMove m runner thread housed phase effect later)
    (busy : effect.isBusy thread.slot = true) (holds : phase.holds = true) :
    later.holds = true := by
  cases move with
  | frees =>
    rw [isBusy_setBusy, if_pos rfl, Bool.and_false] at busy
    cases busy
  | logs | reports => cases holds
  | _ => rfl

/-- While a race is in flight, a thread of it whose slot is marked holds that slot: nobody else has
claimed it since. -/
theorem own_thread_holds {workers : List (Worker D)} {waits : Waits} {logs : Bool} {shared : σ}
    {events : List (Event D)} (run : (ofWorkers workers waits logs shared).steps events = some m)
    (flying : m.InFlight index) (there : m.threads[runner]? = some thread)
    (mine : thread.call = index) (busy : m.isBusy thread.slot = true) :
    thread.phase.holds = true := by
  induction events, m, run using steps_induction generalizing thread with
  | nothing => cases there
  | more events m event next run step ih =>
    have move := move_of_step step
    have balanced := balanced_of_steps run
    rcases move.thread_before there with ⟨phase, former⟩ | ⟨-, starting, -⟩
    · have manned (early : (m.phaseOf index).isUnlaunched = true) : False :=
        threadless_of_steps run early _ (List.mem_of_getElem? former) mine
      have aboard : m.InFlight index := by
        cases move.flightStep with
        | begins mover new _ _ _ also =>
          refine (also index flying).resolve_left ?_
          rintro rfl
          exact manned (by rw [new]; rfl)
        | registers _ _ _ _ _ also => exact also index flying
        | stays _ _ _ also => exact also index flying
      cases marked : m.isBusy thread.slot with
      | false =>
        -- The call would have to claim the slot, and it has threads already.
        have asks := balanced.asks_of_marks move aboard marked busy
        obtain ⟨problem, before, effect, after, placed, own, asks⟩ := move.of_transition asks
        have early : before.isUnlaunched = true := by
          cases before <;> first | rfl | exact absurd asks List.not_mem_nil
        exact (manned (by rw [phaseOf_eq placed]; exact early)).elim
      | true =>
        have holds : phase.holds = true := ih aboard former mine marked
        by_cases own : event = .thread runner
        · subst own
          obtain ⟨_, _, _, -, own, rfl, now⟩ := move.exists_threadMove former
          rw [← Option.some.inj (now.symm.trans there)]
          exact own.holds_of_busy busy holds
        · rw [← Option.some.inj ((move.threads_eq former own).symm.trans there)]
          exact holds
    · rw [starting]
      rfl

/-! ## The next pass -/

theorem CallPhase.inFlight_of_ahead (begun : before.begun = true) (up : before.isDown = false)
    (ahead : before.isPast slot = false) : before.inFlight = true := by
  cases before with
  | arriving => cases begun
  | ended ending =>
    have flown : ending.hadFlight = true := begun
    have whole : ending.isPanic = false := up
    simp only [CallPhase.isPast, flown, whole] at ahead
    cases ahead
  | _ => rfl

/-- A call whose pass has a slot ahead comes closer to it by each of its steps, if workers
answer. -/
theorem CallMove.passLeft_lt (move : CallMove m index problem event before effect after)
    (inside : slot < m.slots.length) (begun : before.begun = true) (up : before.isDown = false)
    (ahead : before.isPast slot = false)
    (answers : ∀ solver problem shared, (D.asks solver problem shared).1 = .accepts ∨
      (D.asks solver problem shared).1 = .refuses) :
    after.isDown = false ∧ after.passLeft m.slots.length < before.passLeft m.slots.length := by
  cases move with
  | waited | expires => exact ⟨rfl, Nat.lt_succ_self _⟩
  | passesOver there | claims there | accepted there | declined there =>
    have below := (List.getElem?_eq_some_iff.mp there).1
    refine ⟨rfl, ?_⟩
    simp only [CallPhase.passLeft]
    omega
  | claimsOver beyond =>
    have whole := List.getElem?_eq_none_iff.mp beyond
    have behind := of_decide_eq_false ahead
    omega
  | @undecided _ _ _ entry _ _ unclear | @panics _ _ _ entry _ _ _ unclear =>
    have clear := answers entry.worker.solver problem m.shared
    rw [answer, Worker.asks] at unclear
    rw [unclear] at clear
    rcases clear with clear | clear <;> cases clear
  | turnedAway | begins | beginsAtOnce => cases begun
  | @leaves ending =>
    have still : (CallPhase.ended ending : CallPhase D).isPast slot = false := ahead
    have flies : (CallPhase.ended ending : CallPhase D).inFlight = true :=
      CallPhase.inFlight_of_ahead begun up still
    exact absurd flies Bool.false_ne_true
  | _ => cases ahead

theorem Balanced.comes_past (balanced : Balanced m left) (inside : slot < m.slots.length)
    (begun : (m.phaseOf index).begun = true) (up : (m.phaseOf index).isDown = false)
    (answers : ∀ solver problem shared, (D.asks solver problem shared).1 = .accepts ∨
      (D.asks solver problem shared).1 = .refuses) :
    ∃ own last, (∀ event ∈ own, event.party? = some (.call index)) ∧ m.steps own = some last ∧
      (last.phaseOf index).isPast slot = true := by
  obtain ⟨own, last, owns, run, -, past⟩ := exists_steps_of_measure
    (fun event => event.party? = some (.call index))
    (fun m => (∃ left, Balanced m left) ∧ slot < m.slots.length ∧
      (m.phaseOf index).begun = true ∧ (m.phaseOf index).isDown = false)
    (fun m => (m.phaseOf index).isPast slot = true)
    (fun m => (m.phaseOf index).passLeft m.slots.length) (by
      rintro m ⟨⟨left, balanced⟩, inside, begun, up⟩ ahead
      have ahead := Bool.eq_false_iff.mpr ahead
      have flying := inFlight_iff.mpr (CallPhase.inFlight_of_ahead begun up ahead)
      obtain ⟨event, next, own, step⟩ := balanced.exists_step_of_flight flying
      have move := move_of_step step
      refine ⟨event, next, own, step, ?_⟩
      obtain ⟨problem, before, effect, after, there, mine, rfl⟩ := move.exists_callMove own
      rw [phaseOf_eq there] at begun up ahead ⊢
      obtain ⟨upright, fewer⟩ := mine.passLeft_lt inside begun up ahead answers
      simp only [phaseOf_setCall_self mine.calls_eq there, move.length_slots]
      exact ⟨⟨⟨_, balanced.move move⟩, inside, mine.begun begun, upright⟩, fewer⟩)
    ⟨⟨left, balanced⟩, inside, begun, up⟩
  exact ⟨own, last, owns, run, past⟩

/-- Between two races, a slot that is free is claimed by every race that comes next. -/
theorem Balanced.claimedNext (balanced : Balanced m left) (idle : m.isRacing = false)
    (inside : slot < m.slots.length) (free : m.isBusy slot = false) : m.ClaimedNext slot := by
  have marks : m.isBusy slot = true ↔ m.Works slot ∨ m.Lost left slot :=
    balanced.busy_iff_of_idle idle
  have unused : ¬ m.Works slot := fun works =>
    absurd (marks.mpr (.inl works)) (ne_true_of_eq_false free)
  have kept : ¬ m.Lost left slot := fun lost =>
    absurd (marks.mpr (.inr lost)) (ne_true_of_eq_false free)
  intro index during later new run
  have asks (during : List (Event D)) (later : Machine D)
      (run : m.steps (.call index :: during) = some later) :
      slot ∉ m.passedBy index (.call index :: during) ∧
        ((later.phaseOf index).isPast slot = true →
          slot ∈ m.askedBy index (.call index :: during)) := by
    have unpassed : slot ∉ m.passedBy index (.call index :: during) := fun passes =>
      kept (((balanced.next_pass idle new run).2 slot unused).2 passes)
    refine ⟨unpassed, fun past => ?_⟩
    exact ((accounts_of_arriving new run).mem_of_past inside past).resolve_right unpassed
  refine ⟨(asks during later run).1, (asks during later run).2, fun answers up => ?_⟩
  have begun := (balanced.next_pass idle new run).1
  have fresh : (m.phaseOf index).Accounts m.slots.length [] [] [] := by
    rw [new]
    exact ⟨rfl, rfl, rfl⟩
  have size := (accounts_of_steps fresh run).1
  obtain ⟨own, last, owns, rest, past⟩ :=
    (balanced.steps run).comes_past (size.symm ▸ inside) begun up answers
  refine ⟨own, last, owns, rest, (asks (during ++ own) last ?_).2 past⟩
  rw [← List.cons_append, steps_append, run, Option.bind_some, rest]

/-- While no call moves, no race begins and no slot is marked. -/
theorem free_of_quiet {events : List (Event D)} (run : m.steps events = some next)
    (quiet : ∀ event ∈ events, ∀ caller, event.party? ≠ some (.call caller)) :
    next.isRacing = m.isRacing ∧ next.slots.length = m.slots.length ∧
      ∀ slot, m.isBusy slot = false → next.isBusy slot = false := by
  induction events, next, run using steps_induction with
  | nothing => exact ⟨rfl, rfl, fun _ free => free⟩
  | more events mid event next run step ih =>
    obtain ⟨same, size, frees⟩ := ih fun event listed => quiet event (List.mem_append_left _ listed)
    have still := quiet event (List.mem_append_right _ (List.mem_singleton_self event))
    have move := move_of_step step
    refine ⟨?_, move.length_slots.trans size, fun slot free => ?_⟩
    · rw [← same]
      cases move with
      | arrives => rfl
      | ofCall there move => exact absurd move.party_eq (still _)
      | ofThread there housed move => exact congrArg Flight.racing move.flight_eq
      | aborts => exact congrArg Flight.racing (flight_abort mid)
    · have before := frees slot free
      cases move with
      | arrives => exact before
      | ofCall there move => exact absurd move.party_eq (still _)
      | ofThread there housed move =>
        refine Bool.eq_false_iff.mpr fun busy => ?_
        exact absurd (move.busy_before busy) (ne_true_of_eq_false before)
      | aborts => rw [isBusy_abort, before]

/-! ## The end of a race that was lost -/

/-- The step by which a call comes back with an outcome gives the racing flag back and nothing
else. -/
theorem Move.leaves_of_ending {outcome : Outcome D.Artifact} (move : Move m event next)
    (goesOn : m.ending? index = none) (ended : next.ending? index = some (.outcome outcome)) :
    m.phaseOf index = .leaving (.outcome outcome) ∧ next.isRacing = false ∧
      next.threads = m.threads ∧ ∀ slot, next.isBusy slot = m.isBusy slot := by
  have last := phaseOf_of_ending ended
  by_cases own : event.party? = some (.call index)
  · obtain ⟨problem, before, effect, after, there, own, rfl⟩ := move.exists_callMove own
    rw [phaseOf_setCall_self own.calls_eq there] at last
    cases own with
    | leaves =>
      obtain rfl := CallPhase.ended.inj last
      exact ⟨Machine.phaseOf_eq there, rfl, rfl, fun _ => rfl⟩
    | @claimsOver _ claimed busy => cases claimed <;> cases busy <;> cases last
    | _ => cases last
  · rw [move.phaseOf_eq own] at last
    exact absurd (goesOn.symm.trans (ending_of_phaseOf last)) nofun

end Moves

/-- What is left of a race when it has come back. -/
theorem aftermath_of_race {workers : List (Worker D)} {waits : Waits} {logs : Bool} {shared : σ}
    {events : List (Event D)} {m : Machine D} (index : Nat)
    (run : (ofWorkers workers waits logs shared).steps events = some m) :
    let polls := (ofWorkers workers waits logs shared).pollsBy index events
    -- A race that succeeded or was called off has asked every thread that it started to stop.
    (∀ ending, m.ending? index = some ending → ending.isSignalled = true →
      ∀ thread ∈ m.threads, thread.call = index → m.flags.isStopped thread.token = true) ∧
    -- When a race comes back because everybody failed and none of its threads was taken down, each
    -- has reported its failure, its slot is free, and the race that comes next claims it.
    (∀ event next, m.step event = some next → m.ending? index = none →
      next.ending? index = some (.outcome .allFailed) →
      (∀ thread ∈ m.threads, thread.call = index → thread.phase.isDown = false) →
      ∀ thread ∈ next.threads, thread.call = index →
        (∃ reason, thread.phase = .reported (.failure reason)) ∧
        next.isBusy thread.slot = false ∧
        ∀ between mid, (∀ event ∈ between, ∀ caller, event.party? ≠ some (.call caller)) →
          next.steps between = some mid → mid.ClaimedNext thread.slot) ∧
    -- A race polls the places of its own threads only. What it counts as failed was refused to it
    -- or polled by it, and what it succeeds with was polled by it.
    (∀ poll ∈ polls, m.Runs index poll.pending.thread) ∧
    (∀ c abort, m.phaseOf index = .collecting c abort →
      c.failures = events.countP (Event.isRefusal index) + polls.countP Poll.isSeen) ∧
    ∀ worker artifact, m.ending? index = some (.outcome (.succeeded worker artifact)) →
      ∃ poll ∈ polls, poll.pending.worker = worker ∧
        poll.found = .ready (.success artifact) := by
  intro polls
  have balanced := balanced_of_steps run
  obtain ⟨books, owned⟩ := books_of_steps index run
  refine ⟨fun ending ended signalled => ?_, ?_, owned, fun c abort now => ?_,
    fun worker artifact ended => ?_⟩
  · exact stopped_of_signalled run (by rw [phaseOf_of_ending ended]; exact signalled)
  · intro event next step goesOn ended up thread there mine
    have move := move_of_step step
    obtain ⟨now, idle, threads, marks⟩ := move.leaves_of_ending goesOn ended
    rw [threads] at there
    rw [now] at books
    obtain ⟨reason, reported⟩ :=
      ThreadPhase.reported_of_failed (books.2 rfl thread there mine) (up thread there mine)
    obtain ⟨runner, there⟩ := List.getElem?_of_mem there
    have free : m.isBusy thread.slot = false := by
      refine Bool.eq_false_iff.mpr fun busy => ?_
      have flying : m.InFlight index := inFlight_iff.mpr (by rw [now]; rfl)
      have holds := own_thread_holds run flying there mine busy
      rw [reported] at holds
      cases holds
    refine ⟨⟨reason, reported⟩, (marks thread.slot).trans free, fun between mid quiet more => ?_⟩
    obtain ⟨racing, size, frees⟩ := free_of_quiet more quiet
    refine ((balanced.move move).steps more).claimedNext (racing.trans idle) ?_ ?_
    · rw [size, move.length_slots]
      exact slot_lt_of_steps run there
    · exact frees thread.slot ((marks thread.slot).trans free)
  · rw [now] at books
    exact books.1
  · rw [phaseOf_of_ending ended] at books
    exact books.1

/-- Two workers that fail on the first problem. On the next, one solves it and the other heeds no
stop. -/
def failFirst : Scripted.Script Nat Nat :=
  { acts := [[.fail .exhausted 0, .succeed 5 0], [.fail .exhausted 0, .holdDeaf 7]] }

/-- Both workers are seen to have failed, and the race is about to come back. -/
def everybodyFails : List (Event failFirst.domain) :=
  [Event.arrive (0 : Nat)] ++ List.replicate 11 (Event.call 0) ++
    List.replicate 8 (Event.thread 0) ++ List.replicate 8 (Event.thread 1) ++
    List.replicate 4 (Event.call 0)

/-- The next race is won by the first worker, after its first step. -/
def wonByTheFirst : List (Event failFirst.domain) :=
  List.replicate 10 (Event.call 1) ++ List.replicate 8 (Event.thread 2) ++
    List.replicate 4 (Event.call 1)

theorem aftermath_of_a_lost_and_a_won_race :
    ∃ m next mid last,
      (failFirst.coordinator { poll := 0, busy := 0 }).steps everybodyFails = some m ∧
      m.step (.call 0) = some next ∧ next.ending? 0 = some (.outcome .allFailed) ∧
      -- Both slots are free when the race comes back, and the next race claims them.
      next.isBusy 0 = false ∧ next.isBusy 1 = false ∧
      next.steps [.arrive (1 : Nat)] = some mid ∧
      mid.steps (.call 1 :: wonByTheFirst) = some last ∧
      0 ∈ mid.askedBy 1 (.call 1 :: wonByTheFirst) ∧
      1 ∈ mid.askedBy 1 (.call 1 :: wonByTheFirst) ∧
      -- That race is won, and whoever it started is asked to stop.
      (∃ worker artifact, last.ending? 1 = some (.outcome (.succeeded worker artifact))) ∧
      ∃ loser, last.threads[3]? = some loser ∧ last.flags.isStopped loser.token = true := by
  obtain ⟨m, next, mid, last, first, second, loser, run, step, goesOn, lost, up, there, other, mine,
      arrives, new, during, past, ending, won, started, own⟩ :
      ∃ m next mid last first second loser,
        (failFirst.coordinator { poll := 0, busy := 0 }).steps everybodyFails = some m ∧
        m.step (.call 0) = some next ∧ m.ending? 0 = none ∧
        next.ending? 0 = some (.outcome .allFailed) ∧
        m.threads.all (fun thread => !thread.phase.isDown) = true ∧
        next.threads[0]? = some first ∧ next.threads[1]? = some second ∧
        (first.call = 0 ∧ first.slot = 0 ∧ second.call = 0 ∧ second.slot = 1) ∧
        next.steps [.arrive (1 : Nat)] = some mid ∧ mid.phaseOf 1 = .arriving ∧
        mid.steps (.call 1 :: wonByTheFirst) = some last ∧
        ((last.phaseOf 1).isPast 0 = true ∧ (last.phaseOf 1).isPast 1 = true) ∧
        ∃ ending, (last.ending? 1 = some ending ∧ ending.isSignalled = true ∧
            ∃ worker artifact, ending = .outcome (.succeeded worker artifact)) ∧
          last.threads[3]? = some loser ∧ loser.call = 1 :=
    ⟨_, _, _, _, _, _, _, rfl, rfl, rfl, rfl, rfl, rfl, rfl, ⟨rfl, rfl, rfl, rfl⟩, rfl, rfl, rfl,
      ⟨rfl, rfl⟩, _, ⟨rfl, rfl, _, _, rfl⟩, rfl, rfl⟩
  obtain ⟨ended, signalled, worker, artifact, rfl⟩ := won
  have upright (thread : Thread failFirst.domain) (listed : thread ∈ m.threads) :
      thread.phase.isDown = false := by
    simpa using List.all_eq_true.mp up thread listed
  have quiet (event : Event failFirst.domain) (listed : event ∈ [Event.arrive (1 : Nat)])
      (caller : Nat) : event.party? ≠ some (.call caller) := by
    rw [List.mem_singleton.mp listed]
    exact nofun
  obtain ⟨-, comesBack, -⟩ := aftermath_of_race 0 run
  have back := comesBack (.call 0) next step goesOn lost
    fun thread listed _ => upright thread listed
  obtain ⟨-, free, claimed⟩ := back first (List.mem_of_getElem? there) mine.1
  obtain ⟨-, free', claimed'⟩ := back second (List.mem_of_getElem? other) mine.2.2.1
  rw [mine.2.1] at free claimed
  rw [mine.2.2.2] at free' claimed'
  have whole : (failFirst.coordinator { poll := 0, busy := 0 }).steps
      (everybodyFails ++ .call 0 :: ([.arrive (1 : Nat)] ++ .call 1 :: wonByTheFirst)) =
      some last := by
    rw [steps_append, run, Option.bind_some, steps_cons, step, Option.bind_some, steps_append,
      arrives, Option.bind_some, during]
  obtain ⟨stops, -⟩ := aftermath_of_race 1 whole
  refine ⟨m, next, mid, last, run, step, lost, free, free', arrives, during, ?_, ?_, ⟨_, _, ended⟩,
    loser, started, stops _ ended signalled loser (List.mem_of_getElem? started) own⟩
  · exact (claimed [.arrive (1 : Nat)] mid quiet arrives 1 _ last new during).2.1 past.1
  · exact (claimed' [.arrive (1 : Nat)] mid quiet arrives 1 _ last new during).2.1 past.2

end Machine

end MotionRace
