import MotionRace.Proofs.FileStore.Append
import MotionRace.Proofs.Race.Aftermath
import MotionRace.TimingLog

/-!
# What the timing log says

A thread writes its line after its run is over and before it reports, and it does so once. So the
log holds one line for every thread that has come past writing, whatever races they belong to and
in whatever order they got there, and a report that somebody looks at has its line already.

Main statement: `log_of_finished_runs`.
-/

namespace MotionRace

/-- The coordinator of a script, with a timing log. -/
def Scripted.Script.logging (s : Scripted.Script Nat Nat) (waits : Waits) : Machine s.domain :=
  { s.coordinator waits with logs := true }

variable {σ : Type} {D : Domain σ}

/-- The verdict that a thread in a phase has written into the log. -/
def ThreadPhase.written? : ThreadPhase D → Option (Verdict D.Artifact)
  | .logged verdict => some verdict
  | .reported verdict => some verdict
  | _ => none

/-- The places in which a call in a phase waits for reports. -/
def CallPhase.places : CallPhase D → List (Option Pending)
  | .launching _ places _ _ _ => places
  | .collecting c _ => c.places
  | _ => []

/-- A collector that goes on waits in no new place. -/
theorem Collector.mem_places_of_goesOn {α : Type} {c next : Collector} {calledOff : Bool}
    {look : Pending → Look α} {pending : Pending} (looked : c.step calledOff look = .goesOn next)
    (listed : some pending ∈ next.places) : some pending ∈ c.places := by
  rcases Collector.goesOn_cases looked with ⟨-, -, rfl⟩ | ⟨place, rfl⟩ | ⟨place, other, rfl, -⟩
  · exact listed
  · exact listed
  · exact (List.mem_or_eq_of_mem_set listed).resolve_right nofun

/-- A worker keeps its id in whatever it does. -/
theorem Worker.id_step (w : Worker D) (problem : D.Problem) (stopped : Bool) (phase : RunPhase D)
    (shared : σ) : (w.step problem stopped phase shared).1.2.id = w.id := by
  unfold Worker.step
  split
  · rfl
  · split <;> rfl
  · split <;> rfl
  · rfl
  · rfl

namespace Machine

/-- The id of the worker of a slot. -/
def idOf (m : Machine D) (slot : Nat) : Option Nat := (m.slots[slot]?).map (·.worker.id)

/-- What the thread of an index has written into the log. -/
def entriesOf (m : Machine D) (runner : Nat) : List LogEntry :=
  match m.threads[runner]? with
  | none => []
  | some thread =>
    match thread.phase.written?, m.idOf thread.slot with
    | some verdict, some id => [⟨id, !verdict.isSuccess, runner⟩]
    | _, _ => []

/-- Whether a pending report is that of a thread, under the id of its worker. -/
def Names (m : Machine D) (pending : Pending) : Prop :=
  ∃ thread, m.threads[pending.thread]? = some thread ∧ m.idOf thread.slot = some pending.worker

/-- Whether a report was made for a place: by its thread, which has written its line. -/
def Reports (m : Machine D) (pending : Pending) (verdict : Verdict D.Artifact) : Prop :=
  ∃ thread, m.threads[pending.thread]? = some thread ∧
    m.idOf thread.slot = some pending.worker ∧ thread.phase = .reported verdict

section Moves

variable {m next effect : Machine D} {index runner : Nat} {problem : D.Problem} {event : Event D}
  {before after : CallPhase D} {thread : Thread D} {housed : Slot D} {phase later : ThreadPhase D}
  {pending : Pending} {verdict : Verdict D.Artifact}

/-! ## Workers keep their ids -/

theorem idOf_modify (m : Machine D) (changed slot : Nat) (change : Slot D → Slot D)
    (same : ∀ entry, m.slots[changed]? = some entry → (change entry).worker.id = entry.worker.id) :
    ({ m with slots := m.slots.modify changed change } : Machine D).idOf slot = m.idOf slot := by
  simp only [idOf, List.getElem?_modify]
  split
  next here =>
    subst here
    cases there : m.slots[changed]? with
    | none => rfl
    | some entry => exact congrArg some (same entry there)
  next => rw [Option.map_eq_map, Option.map_id']

theorem CallMove.idOf_eq (move : CallMove m index problem event before effect after)
    (slot : Nat) : effect.idOf slot = m.idOf slot := by
  cases move with
  | claims | declined | handsBack | notStarted => exact idOf_modify _ _ _ _ fun _ _ => rfl
  | _ => rfl

theorem ThreadMove.idOf_eq (move : ThreadMove m index thread housed phase effect later)
    (located : m.slots[thread.slot]? = some housed) (slot : Nat) :
    effect.idOf slot = m.idOf slot := by
  cases move with
  | locks | finishes | dies | frees => exact idOf_modify _ _ _ _ fun _ _ => rfl
  | runs =>
    refine idOf_modify _ _ _ _ fun entry there => ?_
    obtain rfl := Option.some.inj (there.symm.trans located)
    exact Worker.id_step ..
  | logs | reports => rfl

/-- The ids of the workers stay what they are. -/
theorem Move.idOf_eq (move : Move m event next) (slot : Nat) : next.idOf slot = m.idOf slot := by
  cases move with
  | arrives => rfl
  | ofCall there move => exact move.idOf_eq slot
  | ofThread there housed move => exact move.idOf_eq housed slot
  | aborts => simp only [idOf, slots_abort]

/-! ## The log -/

theorem CallMove.log_eq (move : CallMove m index problem event before effect after) :
    effect.log = m.log ∧ effect.logs = m.logs := by
  cases move <;> exact ⟨rfl, rfl⟩

theorem ThreadMove.logs_eq (move : ThreadMove m index thread housed phase effect later) :
    effect.logs = m.logs := by
  cases move <;> rfl

theorem log_abort (m : Machine D) : m.abort.2.log = m.log ∧ m.abort.2.logs = m.logs := by
  unfold abort
  split <;> exact ⟨rfl, rfl⟩

/-- A coordinator writes a log for good or not at all. -/
theorem Move.logs_eq (move : Move m event next) : next.logs = m.logs := by
  cases move with
  | arrives => rfl
  | ofCall there move => exact move.log_eq.2
  | ofThread there housed move => exact move.logs_eq
  | aborts => exact (log_abort m).2

/-- A thread writes one line as it goes on from marking its slot, and none at other times. -/
theorem ThreadMove.log_cases (move : ThreadMove m index thread housed phase effect later)
    (logs : m.logs = true) :
    (effect.log = m.log ∧ later.written? = phase.written?) ∨
      ∃ verdict, phase.written? = none ∧ later.written? = some verdict ∧
        effect.log = m.log ++ [⟨housed.worker.id, !verdict.isSuccess, index⟩] := by
  cases move with
  | @logs verdict log line =>
    rw [if_pos logs] at line
    exact .inr ⟨verdict, rfl, rfl, line⟩
  | _ => exact .inl ⟨rfl, rfl⟩

/-- The log is only ever added to. -/
theorem Move.log_grows (move : Move m event next) (logs : m.logs = true) :
    m.log <+: next.log := by
  cases move with
  | arrives => exact List.prefix_rfl
  | ofCall there move => exact move.log_eq.1 ▸ List.prefix_rfl
  | @ofThread _ _ _ effect _ there housed move =>
    change m.log <+: effect.log
    rcases move.log_cases logs with ⟨same, -⟩ | ⟨verdict, -, -, more⟩
    · exact same ▸ List.prefix_rfl
    · exact more ▸ List.prefix_append ..
  | aborts => exact (log_abort m).1 ▸ List.prefix_rfl

theorem entriesOf_eq (there : m.threads[runner]? = some thread) {id : Nat}
    (named : m.idOf thread.slot = some id) :
    m.entriesOf runner =
      (thread.phase.written?.map fun verdict => ⟨id, !verdict.isSuccess, runner⟩).toList := by
  simp only [entriesOf, there, named]
  cases thread.phase.written? <;> rfl

theorem entriesOf_eq_nil
    (silent : ∀ thread, m.threads[runner]? = some thread → thread.phase.written? = none) :
    m.entriesOf runner = [] := by
  unfold entriesOf
  cases there : m.threads[runner]? with
  | none => rfl
  | some thread => simp only [silent thread there]

/-- The entries of a thread depend on nothing but the thread and the id of its worker. -/
theorem entriesOf_congr (threads : next.threads[runner]? = m.threads[runner]?)
    (ids : ∀ slot, next.idOf slot = m.idOf slot) : next.entriesOf runner = m.entriesOf runner := by
  simp only [entriesOf, threads, ids]

/-- The log holds what each thread has written and nothing else. -/
theorem Move.entries (move : Move m event next) (logs : m.logs = true)
    (written : ∀ runner, m.log.filter (·.thread == runner) = m.entriesOf runner) (runner : Nat) :
    next.log.filter (·.thread == runner) = next.entriesOf runner := by
  cases move with
  | arrives => exact written runner
  | @ofCall mover problem _ before effect after there move =>
    have log : (effect.setCall mover after).log = m.log := move.log_eq.1
    have ids := (Move.ofCall there move).idOf_eq
    rw [log, written runner]
    rcases move.threads_cases with same | ⟨slot, token, rest, _, _, _, _, -, rfl⟩
    · exact (entriesOf_congr (congrArg (·[runner]?) same) ids).symm
    · -- The thread that was just started has written nothing.
      by_cases inside : runner < m.threads.length
      · refine (entriesOf_congr ?_ ids).symm
        exact List.getElem?_append_left inside
      · have beyond := List.getElem?_eq_none (Nat.not_lt.mp inside)
        rw [entriesOf_eq_nil (by simp [beyond]), entriesOf_eq_nil]
        intro thread started
        change (m.threads ++ [_])[runner]? = some thread at started
        rw [List.getElem?_append_right (Nat.not_lt.mp inside), List.getElem?_singleton] at started
        split at started
        · cases started
          rfl
        · cases started
  | @ofThread mover thread housed effect later there located move =>
    have ids := (Move.ofThread there located move).idOf_eq
    have named : m.idOf thread.slot = some housed.worker.id :=
      congrArg (Option.map fun s : Slot D => s.worker.id) located
    have now := threads_setThread_self move.threads_eq there later
    change effect.log.filter _ = _
    by_cases mine : mover = runner
    · subst mine
      rw [entriesOf_eq now ((ids _).trans named)]
      rcases move.log_cases logs with ⟨same, phases⟩ | ⟨verdict, unwritten, nowWritten, more⟩
      · rw [same, written, entriesOf_eq there named, phases]
      · rw [more, List.filter_append, written, entriesOf_eq there named, unwritten, nowWritten]
        simp
    · rw [entriesOf_congr (threads_setThread_ne move.threads_eq mine later) ids, ← written runner]
      rcases move.log_cases logs with ⟨same, -⟩ | ⟨verdict, -, -, more⟩
      · rw [same]
      · rw [more, List.filter_append]
        simp [mine]
  | aborts =>
    rw [(log_abort m).1, written runner]
    exact (entriesOf_congr (by rw [threads_abort]) (Move.aborts (m := m)).idOf_eq).symm

/-! ## Reports and their places -/

theorem Names.move (names : m.Names pending) (move : Move m event next) : next.Names pending := by
  obtain ⟨thread, there, named⟩ := names
  obtain ⟨phase, now⟩ := move.thread_after there
  exact ⟨_, now, (move.idOf_eq thread.slot).trans named⟩

/-- A report that was made stays. -/
theorem Reports.move (reports : m.Reports pending verdict) (move : Move m event next) :
    next.Reports pending verdict := by
  obtain ⟨thread, there, named, reported⟩ := reports
  refine ⟨thread, ?_, (move.idOf_eq thread.slot).trans named, reported⟩
  by_cases own : event = .thread pending.thread
  · subst own
    obtain ⟨_, _, _, -, own, -⟩ := move.exists_threadMove there
    rw [reported] at own
    cases own
  · exact move.threads_eq there own

theorem reports_of_look (names : m.Names pending) (seen : m.look pending = .ready verdict) :
    m.Reports pending verdict := by
  obtain ⟨⟨call, slot, problem, token, phase⟩, there, named⟩ := names
  refine ⟨_, there, named, ?_⟩
  simp only [look, there] at seen
  cases phase with
  | reported verdict => cases seen; rfl
  | _ => cases seen

/-- Where a call waits after a move: where it waited before, or in the place of the thread that it
has just started. -/
theorem CallMove.names (move : CallMove m index problem event before effect after)
    (there : m.calls[index]? = some ⟨problem, before⟩)
    (names : ∀ pending, some pending ∈ before.places → m.Names pending) :
    ∀ pending, some pending ∈ after.places → (effect.setCall index after).Names pending := by
  intro pending listed
  have step : Move m event (effect.setCall index after) := .ofCall there move
  cases move with
  | @launches slot token rest places failures launched abort =>
    rcases List.mem_append.mp listed with listed | listed
    · exact (names pending listed).move step
    · obtain ⟨entry, housed, rfl⟩ := Option.map_eq_some_iff.mp (List.mem_singleton.mp listed).symm
      refine ⟨⟨index, slot, problem, token, .starting⟩, ?_, ?_⟩
      · exact List.getElem?_concat_length
      · exact congrArg (Option.map (·.worker.id)) housed
  | collects looked =>
    exact (names pending (Collector.mem_places_of_goesOn looked listed)).move step
  | launched | notStarted => exact (names pending listed).move step
  | @claimsOver _ claimed busy =>
    cases claimed <;> cases busy <;> exact absurd listed List.not_mem_nil
  | _ => exact absurd listed List.not_mem_nil

theorem Move.names (move : Move m event next)
    (names : ∀ pending, some pending ∈ (m.phaseOf index).places → m.Names pending) :
    ∀ pending, some pending ∈ (next.phaseOf index).places → next.Names pending := by
  by_cases own : event.party? = some (.call index)
  · obtain ⟨problem, before, effect, after, there, own, rfl⟩ := move.exists_callMove own
    rw [phaseOf_setCall_self own.calls_eq there]
    exact own.names there (Machine.phaseOf_eq there ▸ names)
  · rw [move.phaseOf_eq own]
    exact fun pending listed => (names pending listed).move move

/-- What a poll finds was reported. -/
theorem reports_of_poll {poll : Poll D.Artifact}
    (names : ∀ pending, some pending ∈ (m.phaseOf index).places → m.Names pending)
    (polled : poll ∈ pollsOf index m event next) (found : poll.found = .ready verdict) :
    m.Reports poll.pending verdict := by
  unfold pollsOf at polled
  split at polled
  next mover c abort collecting =>
    split at polled
    · obtain ⟨⟨-, held⟩, looks⟩ := Collector.at_of_poll? (Option.mem_toList.mp polled)
      refine reports_of_look (names poll.pending ?_) (looks.symm.trans found)
      rw [collecting]
      exact List.mem_of_getElem? held
    · exact absurd polled List.not_mem_nil
  next => exact absurd polled List.not_mem_nil

end Moves

section Run

variable {start m later : Machine D} {index : Nat} {events : List (Event D)}

theorem idOf_of_steps (run : start.steps events = some m) (slot : Nat) :
    m.idOf slot = start.idOf slot := by
  induction events, m, run using steps_induction with
  | nothing => rfl
  | more events m event next run step ih => exact ((move_of_step step).idOf_eq slot).trans ih

/-- At every moment the log holds what each thread has written and nothing else. -/
theorem entries_of_steps (run : start.steps events = some m) (logs : start.logs = true)
    (written : ∀ runner, start.log.filter (·.thread == runner) = start.entriesOf runner) :
    m.logs = true ∧ start.log <+: m.log ∧
      ∀ runner, m.log.filter (·.thread == runner) = m.entriesOf runner := by
  induction events, m, run using steps_induction with
  | nothing => exact ⟨logs, List.prefix_rfl, written⟩
  | more events m event next run step ih =>
    obtain ⟨logs, grown, written⟩ := ih
    have move := move_of_step step
    exact ⟨move.logs_eq.trans logs, grown.trans (move.log_grows logs), move.entries logs written⟩

theorem names_of_steps {workers : List (Worker D)} {waits : Waits} {logs : Bool} {shared : σ}
    (index : Nat) (run : (ofWorkers workers waits logs shared).steps events = some m) :
    ∀ pending, some pending ∈ (m.phaseOf index).places → m.Names pending := by
  induction events, m, run using steps_induction with
  | nothing => exact fun pending listed => absurd listed List.not_mem_nil
  | more events m event next run step ih => exact (move_of_step step).names ih

/-- Whatever a race saw in its polls was reported by the threads that it waited for. -/
theorem reports_of_steps {workers : List (Worker D)} {waits : Waits} {logs : Bool} {shared : σ}
    (index : Nat) (run : (ofWorkers workers waits logs shared).steps events = some m) :
    ∀ poll ∈ (ofWorkers workers waits logs shared).pollsBy index events, ∀ verdict,
      poll.found = .ready verdict → m.Reports poll.pending verdict := by
  induction events, m, run using steps_induction with
  | nothing => exact fun poll polled => absurd polled List.not_mem_nil
  | more events m event next run step ih =>
    intro poll polled verdict found
    have move := move_of_step step
    rw [pollsBy, record_concat run step] at polled
    rcases List.mem_append.mp polled with polled | polled
    · exact (ih poll polled verdict found).move move
    · exact (reports_of_poll (names_of_steps index run) polled found).move move

end Run

theorem idOf_ofWorkers {workers : List (Worker D)} {waits : Waits} {logs : Bool} {shared : σ}
    (slot : Nat) :
    (ofWorkers workers waits logs shared).idOf slot = (workers[slot]?).map (·.id) := by
  simp only [idOf, ofWorkers, List.getElem?_map, Option.map_map]
  rfl

/-- Every thread has a worker, whose id is the one that its slot has. -/
theorem exists_worker_of_steps {workers : List (Worker D)} {waits : Waits} {logs : Bool}
    {shared : σ} {events : List (Event D)} {m : Machine D} {runner : Nat} {thread : Thread D}
    (run : (ofWorkers workers waits logs shared).steps events = some m)
    (there : m.threads[runner]? = some thread) :
    ∃ worker, workers[thread.slot]? = some worker ∧ m.idOf thread.slot = some worker.id := by
  have inside := slot_lt_of_steps run there
  rw [length_of_steps run] at inside
  have housed := List.getElem?_eq_getElem inside
  refine ⟨workers[thread.slot], housed, ?_⟩
  rw [idOf_of_steps run, idOf_ofWorkers, housed, Option.map_some]

/-- What a thread has written is in the log. -/
theorem mem_log_of_written {m : Machine D} {runner id : Nat} {thread : Thread D}
    {verdict : Verdict D.Artifact}
    (entries : m.log.filter (·.thread == runner) = m.entriesOf runner)
    (there : m.threads[runner]? = some thread) (named : m.idOf thread.slot = some id)
    (written : thread.phase.written? = some verdict) :
    ⟨id, !verdict.isSuccess, runner⟩ ∈ m.log := by
  apply List.mem_of_mem_filter (p := (·.thread == runner))
  rw [entries, entriesOf_eq there named, written]
  exact List.mem_singleton_self _

/-- What the timing log of a coordinator says, at every moment of every history of its races. -/
theorem log_of_finished_runs {workers : List (Worker D)} {waits : Waits} {shared : σ}
    {events : List (Event D)} {m : Machine D}
    (run : (ofWorkers workers waits true shared).steps events = some m) :
    -- A thread that has come past writing has one entry, with the id of its worker and the mark of
    -- a failure exactly if its run failed. No other thread has one, and there are no other entries.
    (∀ runner thread, m.threads[runner]? = some thread →
      ∃ worker, workers[thread.slot]? = some worker ∧
        m.log.filter (·.thread == runner) =
          (thread.phase.written?.map fun verdict =>
            ⟨worker.id, !verdict.isSuccess, runner⟩).toList) ∧
    (∀ entry ∈ m.log, ∃ thread, m.threads[entry.thread]? = some thread) ∧
    -- No entry is ever taken back or put before another.
    (∀ during later, m.steps during = some later → m.log <+: later.log) ∧
    -- A report that can be looked at has its entry.
    (∀ pending verdict, m.look pending = .ready verdict →
      ∃ thread worker, m.threads[pending.thread]? = some thread ∧
        workers[thread.slot]? = some worker ∧
        ⟨worker.id, !verdict.isSuccess, pending.thread⟩ ∈ m.log) ∧
    -- When a race is lost, every thread that it started and that was not taken down has its entry.
    (∀ index, m.ending? index = some (.outcome .allFailed) →
      ∀ runner thread, m.threads[runner]? = some thread → thread.call = index →
        thread.phase.isDown = false →
        ∃ worker, workers[thread.slot]? = some worker ∧ ⟨worker.id, true, runner⟩ ∈ m.log) ∧
    -- When a race is won, the winner has its entry.
    (∀ index id artifact, m.ending? index = some (.outcome (.succeeded id artifact)) →
      ∃ runner, m.Runs index runner ∧ ⟨id, false, runner⟩ ∈ m.log) ∧
    -- A file that takes lines holds a header for the opening and a line for each entry, behind what
    -- it held before.
    ∀ (t : Turns D) (time : String) (store : FileStore) (path before : String) (place : Location),
      t.machine = m → store.place path = .file place →
      (store.files.lookup place).getD (some "") = some before →
      ∃ (elapsed : Nat → Elapsed) (opened written : FileStore),
        store.append path [TimingLog.header workers.length time] = (.ok (), opened) ∧
        opened.append path (TimingLog.lines t) = (.ok (), written) ∧
        written.text? path = some (before ++ Lines.text
          (TimingLog.header workers.length time :: m.log.map fun entry =>
            TimingLog.line entry.worker entry.failed (elapsed entry.thread))) := by
  obtain ⟨logs, -, entries⟩ := entries_of_steps run rfl fun _ => rfl
  have named {runner : Nat} {thread : Thread D} (there : m.threads[runner]? = some thread) :=
    exists_worker_of_steps run there
  refine ⟨?_, ?_, ?_, ?_, ?_, ?_, ?_⟩
  · intro runner thread there
    obtain ⟨worker, housed, id⟩ := named there
    exact ⟨worker, housed, (entries runner).trans (entriesOf_eq there id)⟩
  · intro entry listed
    have kept : entry ∈ m.entriesOf entry.thread := by
      rw [← entries]
      exact List.mem_filter.mpr ⟨listed, beq_self_eq_true _⟩
    cases there : m.threads[entry.thread]? with
    | none =>
      rw [entriesOf_eq_nil (by simp [there])] at kept
      exact absurd kept List.not_mem_nil
    | some thread => exact ⟨thread, rfl⟩
  · exact fun during later run' => (entries_of_steps run' logs entries).2.1
  · intro pending verdict seen
    cases there : m.threads[pending.thread]? with
    | none => simp [look, there] at seen
    | some thread =>
      obtain ⟨worker, housed, id⟩ := named there
      have names : m.Names ⟨worker.id, pending.thread⟩ := ⟨thread, there, id⟩
      obtain ⟨_, there', _, reported⟩ := reports_of_look names seen
      obtain rfl := Option.some.inj (there.symm.trans there')
      refine ⟨thread, worker, rfl, housed, mem_log_of_written (entries _) there id ?_⟩
      rw [reported]
      rfl
  · intro index lost runner thread there mine up
    obtain ⟨worker, housed, id⟩ := named there
    obtain ⟨books, -⟩ := books_of_steps index run
    rw [phaseOf_of_ending lost] at books
    have failed := books.2 rfl thread (List.mem_of_getElem? there) mine
    obtain ⟨reason, reported⟩ := ThreadPhase.reported_of_failed failed up
    have written : thread.phase.written? = some (.failure reason) := by
      rw [reported]
      rfl
    exact ⟨worker, housed, mem_log_of_written (entries _) there id written⟩
  · intro index id artifact won
    obtain ⟨books, owned⟩ := books_of_steps index run
    rw [phaseOf_of_ending won] at books
    obtain ⟨poll, polled, rfl, found⟩ := books.1
    obtain ⟨thread, there, id, reported⟩ := reports_of_steps index run poll polled _ found
    have written : thread.phase.written? = some (.success artifact) := by
      rw [reported]
      rfl
    exact ⟨poll.pending.thread, owned poll polled, mem_log_of_written (entries _) there id written⟩
  · rintro t time store path before place rfl there held
    obtain ⟨opened, opens, there, held, -⟩ :=
      FileStore.append_of_file there held [TimingLog.header workers.length time]
    obtain ⟨written, writes, -, -, text⟩ :=
      FileStore.append_of_file there held (TimingLog.lines t)
    refine ⟨fun thread => ⟨(t.ran.getD thread (0, 0)).2 - (t.ran.getD thread (0, 0)).1⟩, opened,
      written, opens, writes, ?_⟩
    rw [text, String.append_assoc, ← Lines.text_append]
    rfl

/-- Both workers fail, and the first one wins the race that comes next. -/
def lostThenWon : List (Event failFirst.domain) :=
  everybodyFails ++ [Event.call 0, Event.arrive (1 : Nat), Event.call 1] ++ wonByTheFirst

theorem lines_of_a_lost_and_a_won_race :
    ∃ m artifact runner, (failFirst.logging { poll := 0, busy := 0 }).steps lostThenWon = some m ∧
      m.ending? 0 = some (.outcome .allFailed) ∧ ⟨0, true, 0⟩ ∈ m.log ∧ ⟨1, true, 1⟩ ∈ m.log ∧
      m.ending? 1 = some (.outcome (.succeeded 0 artifact)) ∧
      m.Runs 1 runner ∧ ⟨0, false, runner⟩ ∈ m.log ∧
      -- The thread that heeds no stop has no line yet.
      m.log.filter (·.thread == 3) = [] := by
  obtain ⟨m, first, second, deaf, artifact, run, lost, there, mine, there', mine', won, runs⟩ :
      ∃ m first second deaf artifact,
        (failFirst.logging { poll := 0, busy := 0 }).steps lostThenWon = some m ∧
        m.ending? 0 = some (.outcome .allFailed) ∧
        m.threads[0]? = some first ∧
        (first.call = 0 ∧ first.slot = 0 ∧ first.phase.isDown = false) ∧
        m.threads[1]? = some second ∧
        (second.call = 0 ∧ second.slot = 1 ∧ second.phase.isDown = false) ∧
        m.ending? 1 = some (.outcome (.succeeded 0 artifact)) ∧
        m.threads[3]? = some deaf ∧ deaf.phase.written? = none :=
    ⟨_, _, _, _, _, rfl, rfl, rfl, ⟨rfl, rfl, rfl⟩, rfl, ⟨rfl, rfl, rfl⟩, rfl, rfl, rfl⟩
  obtain ⟨lines, -, -, -, lostLines, wonLine, -⟩ := log_of_finished_runs run
  obtain ⟨worker, housed, line⟩ := lostLines 0 lost 0 first there mine.1 mine.2.2
  obtain ⟨worker', housed', line'⟩ := lostLines 0 lost 1 second there' mine'.1 mine'.2.2
  obtain ⟨runner, own, wins⟩ := wonLine 1 0 artifact won
  obtain ⟨_, -, silent⟩ := lines 3 deaf runs.1
  rw [mine.2.1] at housed
  rw [mine'.2.1] at housed'
  cases housed
  cases housed'
  rw [runs.2] at silent
  exact ⟨m, artifact, runner, run, lost, line, line', won, own, wins, silent⟩

/-- A worker that succeeds at once. -/
def onlyQuick : Scripted.Script Nat Nat := { acts := [[.succeed 5 0]] }

/-- The system refuses to start the thread of the only worker. -/
def refusedBySystem : List (Event onlyQuick.domain) :=
  [Event.arrive (0 : Nat)] ++ List.replicate 6 (Event.call 0) ++ [Event.refuse 0]

/-- A worker whose world panics when it is copied for a run. -/
def brittleWorld : Scripted.Script Nat Nat := { acts := [[.succeed 5 0]], panicking := [0] }

/-- The thread is taken down in its copy, and the race is lost. -/
def takenDownInTheCopy : List (Event brittleWorld.domain) :=
  [Event.arrive (0 : Nat)] ++ List.replicate 8 (Event.call 0) ++
    List.replicate 4 (Event.thread 0) ++ List.replicate 4 (Event.call 0)

/-- A launched worker has no line where its thread is never started, and where the thread is taken
down. Either race is lost. -/
theorem exists_lost_race_without_a_line :
    (∃ refused m abort,
      (onlyQuick.logging { poll := 0, busy := 0 }).steps refusedBySystem = some refused ∧
      -- One worker is launched, and one has failed.
      refused.calls.map (·.phase) = [.launching [] [] 1 1 abort] ∧
      refused.steps (List.replicate 3 (Event.call 0)) = some m ∧
      m.ending? 0 = some (.outcome .allFailed) ∧ m.threads = [] ∧ m.log = []) ∧
    ∃ m thread,
      (brittleWorld.logging { poll := 0, busy := 0 }).steps takenDownInTheCopy = some m ∧
      m.ending? 0 = some (.outcome .allFailed) ∧ m.threads[0]? = some thread ∧ thread.call = 0 ∧
      m.log = [] :=
  ⟨⟨_, _, _, rfl, rfl, rfl, rfl, rfl, rfl⟩, _, _, rfl, rfl, rfl, rfl, rfl⟩

end Machine

end MotionRace
