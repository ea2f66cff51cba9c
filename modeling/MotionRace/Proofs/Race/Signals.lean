import MotionRace.Proofs.Race.Polls

/-!
# What makes a race stop its workers

A race asks its workers to stop when its collector has seen a success, or when somebody called it
off while it was in flight. What other races do on the same coordinator, before it, after it or
while its losers are still at work, never reaches its tokens, and a request is never taken back.
-/

namespace MotionRace

variable {σ : Type} {D : Domain σ}

namespace Machine

/-- Whether a history has given a race cause to stop its workers: one of its polls found a success,
or an abort found it in flight. -/
def Prompted (start : Machine D) (index : Nat) (events : List (Event D)) : Prop :=
  (∃ poll ∈ start.pollsBy index events, poll.isWin = true) ∨
    ∃ before rest m, events = before ++ .abort :: rest ∧ start.steps before = some m ∧
      m.InFlight index

/-- What shows that a race was given cause to stop its workers: one of its tokens is stopped, its
abort flag is raised, or its call is about to signal. -/
structure Warranted (start m : Machine D) (index : Nat) (events : List (Event D)) : Prop where
  token : ∀ token, m.Issued index token → m.flags.isStopped token = true →
    start.Prompted index events
  abort : m.InFlight index → m.flags.isStopped m.flight.abort = true → start.Prompted index events
  signal : ∀ outcome, m.phaseOf index = .signalling outcome → start.Prompted index events

section Steps

variable {start m next : Machine D} {left : List Nat} {index : Nat} {events : List (Event D)}
  {event : Event D}

theorem Prompted.mono (prompted : start.Prompted index events)
    (run : start.steps events = some m) (step : m.step event = some next) :
    start.Prompted index (events ++ [event]) := by
  rcases prompted with ⟨poll, listed, win⟩ | ⟨before, rest, mid, rfl, first, flying⟩
  · left
    refine ⟨poll, ?_, win⟩
    rw [pollsBy, record_concat run step]
    exact List.mem_append_left _ listed
  · right
    exact ⟨before, rest ++ [event], mid, by simp, first, flying⟩

theorem prompted_of_abort (run : start.steps events = some m) (flying : m.InFlight index) :
    start.Prompted index (events ++ [.abort]) :=
  .inr ⟨events, [], m, rfl, run, flying⟩

/-- A flag that a step raises was raised with cause, if it is a token or the abort flag of the race
in flight. -/
theorem Warranted.prompted (warranted : Warranted start m index events)
    (balanced : Balanced m left) (run : start.steps events = some m)
    (step : m.step event = some next) {token : Token} (flying : m.InFlight index)
    (unstopped : m.flags.isStopped token = false) (stopped : next.flags.isStopped token = true) :
    start.Prompted index (events ++ [event]) := by
  rcases (move_of_step step).stopped_cases unstopped stopped with ⟨rfl, -, -⟩ |
    ⟨mover, outcome, -, signalling, -⟩
  · exact prompted_of_abort run flying
  · have also : m.InFlight mover := by
      rw [inFlight_iff, signalling]
      rfl
    obtain rfl := balanced.flight_unique also flying
    exact (warranted.signal outcome signalling).mono run step

/-- A call that is about to signal has seen a success or found its abort flag raised. -/
theorem CallMove.signalling_cases {effect : Machine D} {problem : D.Problem}
    {before after : CallPhase D} (move : CallMove m index problem event before effect after)
    {outcome : Outcome D.Artifact} (signals : after = .signalling outcome) :
    ∃ c abort, before = .collecting c abort ∧ event = .call index ∧
      (m.flags.isStopped abort = true ∨
        ∃ poll, c.poll? m.look = some poll ∧ poll.isWin = true) := by
  cases move with
  | @decides c abort outcome decided other =>
    refine ⟨c, abort, rfl, rfl, ?_⟩
    rcases Collector.decided_by decided with ⟨-, ⟨-, off⟩ | ⟨lost, -⟩⟩ | ⟨poll, _, polls, won, -⟩
    · exact .inl off
    · exact absurd lost other
    · refine .inr ⟨poll, polls, ?_⟩
      rw [Poll.isWin, won]
  | @claimsOver _ claimed busy => cases claimed <;> cases busy <;> cases signals
  | _ => cases signals

end Steps

theorem warranted_of_steps {workers : List (Worker D)} {waits : Waits} {logs : Bool} {shared : σ}
    {events : List (Event D)} {m : Machine D} (index : Nat)
    (run : (ofWorkers workers waits logs shared).steps events = some m) :
    Warranted (ofWorkers workers waits logs shared) m index events := by
  induction events, m, run using steps_induction with
  | nothing =>
    constructor
    · rintro token (listed | ⟨thread, there, -⟩) -
      · exact absurd listed List.not_mem_nil
      · exact absurd there List.not_mem_nil
    · intro flying
      cases inFlight_iff.mp flying
    · intro outcome signalling
      cases signalling
  | more events m event next run step ih =>
    have move := move_of_step step
    have balanced := balanced_of_steps run
    constructor
    · intro token issued stopped
      rcases move.issued_before issued with former | ⟨-, claimed, registering, made⟩
      · cases before : m.flags.isStopped token with
        | true => exact (ih.token token former before).mono run step
        | false =>
          rcases (fenced_of_steps run).raised_by balanced move former before stopped with
            ⟨rfl, flying⟩ | ⟨-, outcome, signalling⟩
          · exact prompted_of_abort run flying
          · exact (ih.signal outcome signalling).mono run step
      · -- A token that has just been made is not stopped by the step that makes it.
        have fresh : m.flags.isStopped token = false := Flags.isStopped_of_mem_freshMany made
        have flying : m.InFlight index := by
          rw [inFlight_iff, registering]
          rfl
        exact ih.prompted balanced run step flying fresh stopped
    · intro flying stopped
      by_cases former : m.InFlight index
      · have racing := balanced.racing_iff.mpr ⟨index, former⟩
        rw [move.abort_eq racing] at stopped
        cases before : m.flags.isStopped m.flight.abort with
        | true => exact (ih.abort former before).mono run step
        | false => exact ih.prompted balanced run step former before stopped
      · -- A race that takes off has an abort flag of its own, which nobody has raised.
        cases move.flightStep with
        | begins mover new idle flight flags also =>
          rw [flight, flags] at stopped
          exact absurd stopped (ne_true_of_eq_false (Flags.isStopped_fresh m.flags))
        | registers _ _ _ _ _ also => exact absurd (also index flying) former
        | stays _ _ _ also => exact absurd (also index flying) former
    · intro outcome signalling
      by_cases own : event.party? = some (.call index)
      · obtain ⟨problem, before, effect, after, there, own, rfl⟩ := move.exists_callMove own
        rw [phaseOf_setCall_self own.calls_eq there] at signalling
        obtain ⟨c, abort, rfl, rfl, off | ⟨poll, polls, win⟩⟩ := own.signalling_cases signalling
        · have handle : (m.phaseOf index).abort? = some abort := by
            rw [phaseOf_eq there]
            rfl
          obtain rfl := handle_of_steps run handle
          exact (ih.abort ⟨_, there, rfl⟩ off).mono run step
        · left
          refine ⟨poll, ?_, win⟩
          rw [pollsBy, record_concat run step, pollsOf_collecting (phaseOf_eq there), polls]
          exact List.mem_append_right _ (List.mem_singleton_self poll)
      · rw [move.phaseOf_eq own] at signalling
        exact (ih.signal outcome signalling).mono run step

/-- The token of a launched worker is stopped only after its own race was given cause to, is stopped
only by an abort of that race or by its call, and stays stopped. -/
theorem stop_signals_stay_in_their_race {workers : List (Worker D)} {waits : Waits} {logs : Bool}
    {shared : σ} {events : List (Event D)} {m : Machine D} {runner : Nat} {thread : Thread D}
    (run : (ofWorkers workers waits logs shared).steps events = some m)
    (launched : m.threads[runner]? = some thread) :
    -- The race has seen a success by then, or was called off while it was in flight.
    (m.flags.isStopped thread.token = true →
      (ofWorkers workers waits logs shared).Prompted thread.call events) ∧
    -- No step of another race, and no abort while another race is in flight, stops the token.
    (∀ event next, m.step event = some next → m.flags.isStopped thread.token = false →
      next.flags.isStopped thread.token = true →
      (event = .abort ∧ m.InFlight thread.call ∧ ∀ other, m.InFlight other → other = thread.call) ∨
        event = .call thread.call ∧ ∃ outcome, m.phaseOf thread.call = .signalling outcome) ∧
    -- Whatever comes later, the worker looks at the same token, and a request to stop stays.
    (∀ more later, m.steps more = some later →
      ∃ now, later.threads[runner]? = some now ∧ now.call = thread.call ∧
        now.token = thread.token ∧
        (m.flags.isStopped thread.token = true → later.flags.isStopped now.token = true)) := by
  have balanced := balanced_of_steps run
  have issued : m.Issued thread.call thread.token :=
    .inr ⟨thread, List.mem_of_getElem? launched, rfl, rfl⟩
  refine ⟨(warranted_of_steps thread.call run).token thread.token issued, ?_, ?_⟩
  · intro event next step unstopped stopped
    have raised := (fenced_of_steps run).raised_by balanced (move_of_step step) issued unstopped
      stopped
    refine raised.imp_left fun ⟨called, flying⟩ => ⟨called, flying, fun other also => ?_⟩
    exact balanced.flight_unique also flying
  · intro more later rest
    obtain ⟨phase, there⟩ := thread_of_steps rest launched
    exact ⟨_, there, rfl, rfl, stopped_of_steps rest⟩

/-- One worker that heeds no stop, and one that solves the first problem and spins on the next. -/
def deafAndSpinning : Scripted.Script Nat Nat :=
  { acts := [[.holdDeaf 7], [.succeed 5 0, .spin]] }

/-- The second worker wins a race that the first one loses, and solves for the next race while the
loser goes on. -/
def besideALoser : List (Event deafAndSpinning.domain) :=
  [Event.arrive (0 : Nat)] ++ List.replicate 11 (Event.call 0) ++
    List.replicate 8 (Event.thread 1) ++ List.replicate 4 (Event.thread 0) ++
    List.replicate 5 (Event.call 0) ++ [Event.arrive (1 : Nat)] ++
    List.replicate 9 (Event.call 1) ++ List.replicate 4 (Event.thread 2)

theorem loser_and_worker_are_signalled_apart :
    ∃ m off loser worker,
      (deafAndSpinning.coordinator { poll := 0, busy := 0 }).steps besideALoser = some m ∧
      m.threads[0]? = some loser ∧ m.threads[2]? = some worker ∧
      -- The loser was stopped because its race was won, and not the worker of the next race.
      m.flags.isStopped loser.token = true ∧ m.flags.isStopped worker.token = false ∧
      (deafAndSpinning.coordinator { poll := 0, busy := 0 }).Prompted 0 besideALoser ∧
      -- An abort stops that worker, whose race is the one in flight, and the loser stays stopped.
      m.step .abort = some off ∧ off.flags.isStopped worker.token = true ∧ m.InFlight 1 ∧
      ∃ now, off.threads[0]? = some now ∧ off.flags.isStopped now.token = true := by
  obtain ⟨m, off, loser, worker, run, first, third, lost, works, called, stopped, calls⟩ :
      ∃ m off loser worker,
        (deafAndSpinning.coordinator { poll := 0, busy := 0 }).steps besideALoser = some m ∧
        m.threads[0]? = some loser ∧ m.threads[2]? = some worker ∧
        m.flags.isStopped loser.token = true ∧ m.flags.isStopped worker.token = false ∧
        m.step .abort = some off ∧ off.flags.isStopped worker.token = true ∧
        loser.call = 0 ∧ worker.call = 1 :=
    ⟨_, _, _, _, rfl, rfl, rfl, rfl, rfl, rfl, rfl, rfl, rfl⟩
  obtain ⟨prompted, -, stays⟩ := stop_signals_stay_in_their_race run first
  obtain ⟨-, causes, -⟩ := stop_signals_stay_in_their_race run third
  have more : m.steps [.abort] = some off := by
    rw [steps_cons, called]
    rfl
  obtain ⟨now, there, -, -, still⟩ := stays [.abort] off more
  have flying : m.InFlight 1 := by
    rcases causes .abort off called works stopped with ⟨-, flying, -⟩ | ⟨moved, -⟩
    · exact calls.2 ▸ flying
    · cases moved
  have cause := prompted lost
  rw [calls.1] at cause
  exact ⟨m, off, loser, worker, run, first, third, lost, works, cause, called, stopped, flying,
    now, there, still lost⟩

end Machine

end MotionRace
