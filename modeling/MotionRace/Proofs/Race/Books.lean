import MotionRace.Proofs.Race.Polls
import MotionRace.Proofs.Race.Tally

/-!
# The books of a race

Whatever is called off and whenever: the places of a race hold its own threads only, a thread of the
race is waited for in a place or was seen to have failed, and the failures that a race counts are
the threads that were refused and the polls that saw something.

Main statement: `books_of_steps`.
-/

namespace MotionRace

variable {σ : Type} {D : Domain σ}

/-- Whether a thread in a phase is over and did not succeed. -/
def ThreadPhase.hasFailed : ThreadPhase D → Bool
  | .reported (.failure _) => true
  | .died _ => true
  | _ => false

/-- Whether a poll shows an ending: a success is shown by one that found it. -/
def Ending.ShownBy {α : Type} (polls : List (Poll α)) : Ending α → Prop
  | .outcome (.succeeded worker artifact) =>
    ∃ poll ∈ polls, poll.pending.worker = worker ∧ poll.found = .ready (.success artifact)
  | _ => True

namespace Machine

/-- Whether a thread is one of a race. -/
def Runs (m : Machine D) (index runner : Nat) : Prop :=
  ∃ thread, m.threads[runner]? = some thread ∧ thread.call = index

/-- What the places of a race hold: threads of the race, and all that were not seen to have
failed. -/
structure Ledger (m : Machine D) (index : Nat) (places : List (Option Pending)) : Prop where
  placed : ∀ pending, some pending ∈ places → m.Runs index pending.thread
  seen : ∀ runner thread, m.threads[runner]? = some thread → thread.call = index →
    (∃ pending, some pending ∈ places ∧ pending.thread = runner) ∨ thread.phase.hasFailed = true

/-- What an ending says of the threads of its race. -/
def Closes (m : Machine D) (index : Nat) (polls : List (Poll D.Artifact))
    (ending : Ending D.Artifact) : Prop :=
  ending.ShownBy polls ∧ (ending = .outcome .allFailed →
    ∀ thread ∈ m.threads, thread.call = index → thread.phase.hasFailed = true)

/-- What the phase of a call says of its threads and polls, and of the threads that were refused. -/
def Books (m : Machine D) (index : Nat) (polls : List (Poll D.Artifact)) (refused : Nat) :
    CallPhase D → Prop
  | .launching rest places failures count _ =>
    polls = [] ∧ failures = refused ∧ m.Ledger index places ∧
      rest.length + failures + places.countP Option.isSome = count
  | .collecting c _ =>
    c.failures = refused + polls.countP Poll.isSeen ∧ m.Ledger index c.places ∧
      c.failures + c.places.countP Option.isSome = c.launched
  | .signalling outcome => m.Closes index polls (.outcome outcome)
  | .leaving ending => m.Closes index polls ending
  | .ended ending => m.Closes index polls ending
  | _ => polls = [] ∧ refused = 0

section Moves

variable {m next effect : Machine D} {left : List Nat} {index runner refused : Nat}
  {problem : D.Problem} {event : Event D} {before after phase : CallPhase D} {thread : Thread D}
  {places : List (Option Pending)} {polls : List (Poll D.Artifact)} {ending : Ending D.Artifact}

theorem ThreadMove.not_failed {housed : Slot D} {phase later : ThreadPhase D}
    (move : ThreadMove m runner thread housed phase effect later) : phase.hasFailed = false := by
  cases move <;> rfl

/-- A thread that failed stays where it is. -/
theorem Move.failed_stays (move : Move m event next) (there : m.threads[runner]? = some thread)
    (failed : thread.phase.hasFailed = true) : next.threads[runner]? = some thread := by
  by_cases own : event = .thread runner
  · subst own
    obtain ⟨_, _, _, -, own, -⟩ := move.exists_threadMove there
    exact absurd failed (ne_true_of_eq_false own.not_failed)
  · exact move.threads_eq there own

theorem Runs.move (runs : m.Runs index runner) (move : Move m event next) :
    next.Runs index runner := by
  obtain ⟨thread, there, mine⟩ := runs
  obtain ⟨phase, now⟩ := move.thread_after there
  exact ⟨_, now, mine⟩

/-- While its call starts none, the threads of a race are those that were there before. -/
theorem Move.own_thread_before (move : Move m event next)
    (quiet : (m.phaseOf index).isLaunching = false ∨ event ≠ .call index)
    (there : next.threads[runner]? = some thread) (mine : thread.call = index) :
    ∃ phase, m.threads[runner]? = some { thread with phase } := by
  refine (move.thread_before there).resolve_right ?_
  rintro ⟨-, -, moved, _, _, _, _, _, launching⟩
  rw [mine] at moved launching
  rcases quiet with quiet | other
  · rw [launching] at quiet
    cases quiet
  · exact other moved

theorem Move.failed_before (move : Move m event next)
    (quiet : (m.phaseOf index).isLaunching = false ∨ event ≠ .call index)
    (failed : ∀ thread ∈ m.threads, thread.call = index → thread.phase.hasFailed = true) :
    ∀ thread ∈ next.threads, thread.call = index → thread.phase.hasFailed = true := by
  intro thread there mine
  obtain ⟨runner, there⟩ := List.getElem?_of_mem there
  obtain ⟨phase, former⟩ := move.own_thread_before quiet there mine
  have spent : phase.hasFailed = true := failed _ (List.mem_of_getElem? former) mine
  rw [← Option.some.inj ((move.failed_stays former spent).symm.trans there)]
  exact spent

theorem Ledger.move (ledger : m.Ledger index places) (move : Move m event next)
    (quiet : (m.phaseOf index).isLaunching = false ∨ event ≠ .call index) :
    next.Ledger index places where
  placed pending listed := (ledger.placed pending listed).move move
  seen runner thread there mine := by
    obtain ⟨phase, former⟩ := move.own_thread_before quiet there mine
    refine (ledger.seen runner _ former mine).imp_right fun spent => ?_
    rw [← Option.some.inj ((move.failed_stays former spent).symm.trans there)]
    exact spent

/-- The ledger of a race depends on nothing but the threads. -/
theorem Ledger.of_threads (ledger : m.Ledger index places) (same : next.threads = m.threads) :
    next.Ledger index places where
  placed pending listed := by
    unfold Runs
    rw [same]
    exact ledger.placed pending listed
  seen runner thread there mine := ledger.seen runner thread (same ▸ there) mine

/-- A thread that a call starts is waited for in the place that its launch adds. -/
theorem Ledger.launch (ledger : m.Ledger index places) {slot : Nat} {token : Token}
    {worker : Worker D} (housed : m.workerOf slot = some worker) (after : CallPhase D) :
    ((m.addThread { call := index, slot, problem, token }).setCall index after).Ledger index
      (places ++ [m.nextPlace slot]) := by
  have place := nextPlace_eq housed
  have grown (runner : Nat) : ((m.addThread { call := index, slot, problem, token }).setCall index
      after).threads[runner]? =
      (m.threads ++ [{ call := index, slot, problem, token }])[runner]? := rfl
  constructor
  · intro pending listed
    rcases List.mem_append.mp listed with listed | listed
    · obtain ⟨thread, there, mine⟩ := ledger.placed pending listed
      have inside := (List.getElem?_eq_some_iff.mp there).1
      exact ⟨thread, by rw [grown, List.getElem?_append_left inside, there], mine⟩
    · obtain rfl := Option.some.inj ((List.mem_singleton.mp listed).trans place)
      exact ⟨_, by rw [grown]; exact List.getElem?_concat_length .., rfl⟩
  · intro runner thread there mine
    rw [grown, List.getElem?_append] at there
    split at there
    · refine (ledger.seen runner thread there mine).imp_left ?_
      rintro ⟨pending, listed, same⟩
      exact ⟨pending, List.mem_append_left _ listed, same⟩
    · next beyond =>
      rw [List.getElem?_singleton] at there
      split at there
      · refine .inl ⟨_, List.mem_append_right _ (List.mem_singleton.mpr place.symm), ?_⟩
        show m.threads.length = runner
        omega
      · cases there

/-- A place is emptied when the thread that it held was seen to have failed. -/
theorem Ledger.drop (ledger : m.Ledger index places) {place : Nat} {pending : Pending}
    (there : places[place]? = some (some pending))
    (failed : ∀ thread, m.threads[pending.thread]? = some thread → thread.phase.hasFailed = true) :
    m.Ledger index (places.set place none) where
  placed other listed := by
    rcases List.mem_or_eq_of_mem_set listed with listed | emptied
    · exact ledger.placed other listed
    · cases emptied
  seen runner thread now mine := by
    rcases ledger.seen runner thread now mine with ⟨other, listed, rfl⟩ | spent
    · rcases mem_set_none there listed with waits | rfl
      · exact .inl ⟨other, waits, rfl⟩
      · exact .inr (failed thread now)
    · exact .inr spent

/-- A thread that a poll has seen, and not as the winner, has failed. -/
theorem hasFailed_of_poll {poll : Poll D.Artifact} (found : poll.found = m.look poll.pending)
    (seen : poll.isSeen = true) (lost : poll.isWin = false)
    (there : m.threads[poll.pending.thread]? = some thread) : thread.phase.hasFailed = true := by
  obtain ⟨call, slot, problem, token, phase⟩ := thread
  rw [Poll.isSeen, found, look, there] at seen
  rw [Poll.isWin, found, look, there] at lost
  cases phase with
  | died panic => rfl
  | reported verdict =>
    cases verdict with
    | failure reason => rfl
    | success artifact => cases lost
  | _ => cases seen

theorem Closes.move (closes : m.Closes index polls ending) (move : Move m event next)
    (quiet : (m.phaseOf index).isLaunching = false ∨ event ≠ .call index) :
    next.Closes index polls ending :=
  ⟨closes.1, fun lost => move.failed_before quiet (closes.2 lost)⟩

/-- Ending without having counted closes the books on nothing. -/
theorem closes_of_early (early : ending.isEarly = true) : m.Closes index polls ending := by
  refine ⟨?_, ?_⟩
  · cases ending with
    | outcome outcome =>
      cases outcome with
      | succeeded => cases early
      | _ => exact trivial
    | _ => exact trivial
  · rintro rfl
    cases early

/-- The books of a call stay right while others move. -/
theorem Books.mono (books : m.Books index polls refused phase) (move : Move m event next)
    (other : event ≠ .call index) : next.Books index polls refused phase := by
  cases phase with
  | launching rest places failures count abort =>
    obtain ⟨unpolled, counted, ledger, total⟩ := books
    exact ⟨unpolled, counted, ledger.move move (.inr other), total⟩
  | collecting c abort =>
    obtain ⟨counted, ledger, total⟩ := books
    exact ⟨counted, ledger.move move (.inr other), total⟩
  | signalling | leaving | ended => exact Closes.move books move (.inr other)
  | _ => exact books

/-- A collector that goes on keeps its books right. -/
theorem Ledger.goesOn {c later : Collector} {calledOff : Bool} (ledger : m.Ledger index c.places)
    (counted : c.failures = refused + polls.countP Poll.isSeen)
    (total : c.failures + c.places.countP Option.isSome = c.launched)
    (looked : c.step calledOff m.look = .goesOn later) :
    later.failures = refused + (polls ++ (c.poll? m.look).toList).countP Poll.isSeen ∧
      m.Ledger index later.places ∧
      later.failures + later.places.countP Option.isSome = later.launched := by
  rw [List.countP_append]
  rcases Collector.goesOn_by looked with ⟨-, unpolled, -, rfl⟩ | ⟨place, cursor, ⟨rfl, unseen⟩ |
    ⟨poll, polled, rfl, seen, lost, rfl⟩⟩
  · rw [unpolled]
    exact ⟨counted, ledger, total⟩
  · refine ⟨?_, ledger, total⟩
    cases polled : c.poll? m.look with
    | none => exact counted
    | some poll =>
      simp only [Option.toList_some, List.countP_singleton, unseen poll polled, Bool.false_eq_true,
        if_false]
      exact counted
  · obtain ⟨⟨-, held⟩, found⟩ := Collector.at_of_poll? polled
    refine ⟨?_, ledger.drop held fun thread there => hasFailed_of_poll found seen lost there, ?_⟩
    · simp only [polled, Option.toList_some, List.countP_singleton, seen, if_true]
      show c.failures + 1 = _
      omega
    · have fewer := countP_set_none held
      show c.failures + 1 + (c.places.set poll.place none).countP Option.isSome = c.launched
      omega

/-- A collector that counted as many failures as were launched has seen every thread fail. -/
theorem Ledger.decided {c : Collector} {calledOff : Bool} {outcome : Outcome D.Artifact}
    (ledger : m.Ledger index c.places)
    (total : c.failures + c.places.countP Option.isSome = c.launched)
    (decided : c.step calledOff m.look = .decided outcome) :
    m.Closes index (polls ++ (c.poll? m.look).toList) (.outcome outcome) := by
  rcases Collector.decided_by decided with ⟨unpolled, ⟨rfl, -⟩ | ⟨rfl, -, lost⟩⟩ |
    ⟨poll, artifact, polled, won, rfl⟩
  · exact closes_of_early rfl
  · refine ⟨trivial, fun _ thread there mine => ?_⟩
    obtain ⟨runner, there⟩ := List.getElem?_of_mem there
    refine (ledger.seen runner thread there mine).resolve_left ?_
    rintro ⟨pending, listed, -⟩
    have positive : 0 < c.places.countP Option.isSome := List.countP_pos_iff.mpr ⟨_, listed, rfl⟩
    omega
  · refine ⟨⟨poll, ?_, rfl, won⟩, nofun⟩
    rw [polled]
    exact List.mem_append_right _ (List.mem_singleton_self poll)

/-- The books of a call stay right when it moves. -/
theorem CallMove.books (move : CallMove m index problem event before effect after)
    (balanced : Balanced m left) (there : m.calls[index]? = some ⟨problem, before⟩)
    (unmanned : before.isUnlaunched = true → ∀ thread ∈ m.threads, thread.call ≠ index)
    (books : m.Books index polls refused before) :
    (effect.setCall index after).Books index
      (polls ++ pollsOf index m event (effect.setCall index after))
      (refused + (event.isRefusal index).toNat) after := by
  have step : Move m event (effect.setCall index after) := .ofCall there move
  have now : m.phaseOf index = before := phaseOf_eq there
  cases move with
  | @launches slot token rest places failures count abort =>
    obtain ⟨rfl, counted, ledger, total⟩ := books
    obtain ⟨worker, housed⟩ := balanced.exists_worker there
    rw [pollsOf_eq_nil (by rw [now]; rfl)]
    refine ⟨rfl, counted, ledger.launch housed _, ?_⟩
    rw [List.countP_append, nextPlace_eq housed, List.countP_singleton]
    simp only [List.length_cons, Option.isSome_some, if_true] at total ⊢
    omega
  | @notStarted slot token rest places failures count abort =>
    obtain ⟨rfl, counted, ledger, total⟩ := books
    rw [pollsOf_eq_nil (by rw [now]; rfl)]
    have refusal : (Event.refuse index : Event D).isRefusal index = true := beq_self_eq_true index
    refine ⟨rfl, ?_, ledger.move step (.inr nofun), ?_⟩
    · rw [refusal, counted]
      rfl
    · simp only [List.length_cons] at total
      omega
  | @launched places failures count abort =>
    obtain ⟨rfl, counted, ledger, total⟩ := books
    rw [pollsOf_eq_nil (by rw [now]; rfl)]
    refine ⟨counted, ledger.of_threads rfl, ?_⟩
    show failures + places.countP Option.isSome = count
    simpa only [List.length_nil, Nat.zero_add] using total
  | goesAhead =>
    obtain ⟨rfl, rfl⟩ := books
    rw [pollsOf_eq_nil (by rw [now]; rfl)]
    refine ⟨rfl, rfl, ⟨fun pending listed => absurd listed List.not_mem_nil, ?_⟩, rfl⟩
    intro runner thread held mine
    exact absurd mine (unmanned rfl thread (List.mem_of_getElem? held))
  | collects looked =>
    obtain ⟨counted, ledger, total⟩ := books
    rw [pollsOf_collecting now]
    obtain ⟨counted, ledger, total⟩ := ledger.goesOn counted total looked
    exact ⟨counted, ledger.move step (.inl (by rw [now]; rfl)), total⟩
  | loses decided | decides decided =>
    obtain ⟨counted, ledger, total⟩ := books
    rw [pollsOf_collecting now]
    exact (ledger.decided total decided).move step (.inl (by rw [now]; rfl))
  | signals | leaves =>
    rw [pollsOf_eq_nil (by rw [now]; rfl), List.append_nil]
    exact Closes.move books step (.inl (by rw [now]; rfl))
  | turnedAway => exact ⟨trivial, nofun⟩
  | panics | handedBack => exact closes_of_early rfl
  | @claimsOver _ claimed busy =>
    rw [pollsOf_eq_nil (by rw [now]; rfl), List.append_nil]
    cases claimed with
    | nil => cases busy <;> exact closes_of_early rfl
    | cons first rest => exact books
  | _ =>
    rw [pollsOf_eq_nil (by rw [now]; rfl), List.append_nil]
    exact books

/-- What a race polls is what its own threads report. -/
theorem CallMove.owned (move : CallMove m index problem event before effect after)
    (there : m.calls[index]? = some ⟨problem, before⟩)
    (books : m.Books index polls refused before) {poll : Poll D.Artifact}
    (polled : poll ∈ pollsOf index m event next) : m.Runs index poll.pending.thread := by
  have now : m.phaseOf index = before := phaseOf_eq there
  have collecting : before.isCollecting = true := by
    apply Decidable.byContradiction
    intro other
    rw [pollsOf_eq_nil (by rw [now]; exact Bool.eq_false_iff.mpr other)] at polled
    exact absurd polled List.not_mem_nil
  cases before with
  | collecting c abort =>
    have own : event = .call index := by
      cases move <;> rfl
    rw [own, pollsOf_collecting now] at polled
    obtain ⟨⟨-, held⟩, -⟩ := Collector.at_of_poll? (Option.mem_toList.mp polled)
    exact books.2.1.placed poll.pending (List.mem_of_getElem? held)
  | _ => cases collecting

end Moves

theorem books_of_steps {workers : List (Worker D)} {waits : Waits} {logs : Bool} {shared : σ}
    {events : List (Event D)} {m : Machine D} (index : Nat)
    (run : (ofWorkers workers waits logs shared).steps events = some m) :
    m.Books index ((ofWorkers workers waits logs shared).pollsBy index events)
        (events.countP (Event.isRefusal index)) (m.phaseOf index) ∧
      ∀ poll ∈ (ofWorkers workers waits logs shared).pollsBy index events,
        m.Runs index poll.pending.thread := by
  induction events, m, run using steps_induction with
  | nothing => exact ⟨⟨rfl, rfl⟩, fun poll polled => absurd polled List.not_mem_nil⟩
  | more events m event next run step ih =>
    obtain ⟨books, owned⟩ := ih
    have move := move_of_step step
    rw [pollsBy, record_concat run step, List.countP_append, List.countP_singleton]
    by_cases own : event.party? = some (.call index)
    · obtain ⟨problem, before, effect, after, there, own, rfl⟩ := move.exists_callMove own
      rw [phaseOf_eq there] at books
      rw [phaseOf_setCall_self own.calls_eq there]
      constructor
      · have unmanned (early : before.isUnlaunched = true) :
            ∀ thread ∈ m.threads, thread.call ≠ index :=
          threadless_of_steps run (phaseOf_eq there ▸ early)
        have kept := own.books (balanced_of_steps run) there unmanned books
        cases refusal : event.isRefusal index <;> rw [refusal] at kept <;> exact kept
      · intro poll polled
        rcases List.mem_append.mp polled with polled | polled
        · exact (owned poll polled).move move
        · exact (own.owned there books polled).move move
    · rw [pollsOf_other own, isRefusal_other own, move.phaseOf_eq own, List.append_nil]
      refine ⟨books.mono move fun same => own (same ▸ rfl), fun poll polled => ?_⟩
      exact (owned poll polled).move move

end Machine

end MotionRace
