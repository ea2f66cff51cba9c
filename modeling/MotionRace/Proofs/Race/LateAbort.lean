import MotionRace.Proofs.Race.Polls
import MotionRace.Proofs.Race.Progress

/-!
# A race that is called off after it registered

An abort raises the abort flag of the race in flight and all of its tokens. Once the race has
registered its workers there is no token that it could miss: the threads that have not looked at
theirs come back as cancelled, and the call finds its abort flag raised before its next pass. What
it has decided by then stands, and a success that it sees in the pass under way still counts.

Main statement: `abort_after_registration`.
-/

namespace MotionRace

variable {σ : Type} {D : Domain σ}

/-- Whether a call in a phase will register no workers any more. -/
def CallPhase.isRegistered : CallPhase D → Bool
  | .arriving => false
  | phase => !phase.isUnregistered

/-- What a call in a phase is going to end with, if it has decided. -/
def CallPhase.decided? : CallPhase D → Option (Ending D.Artifact)
  | .signalling outcome => some (.outcome outcome)
  | .leaving ending => some ending
  | _ => none

/-- Whether a thread in a phase has yet to look at its token for the first time. -/
def ThreadPhase.isUnlooked : ThreadPhase D → Bool
  | .starting => true
  | .running .entered => true
  | _ => false

/-- Whether a thread in a phase comes back as cancelled: it has not looked at its token, which is
stopped, or it has seen that at its first look. -/
def ThreadPhase.isCancelling : ThreadPhase D → Prop
  | .starting => True
  | .running .entered => True
  | .running (.finished verdict) => verdict = .failure .cancelled
  | .unlocked verdict => verdict = .failure .cancelled
  | .freed verdict => verdict = .failure .cancelled
  | .logged verdict => verdict = .failure .cancelled
  | .reported verdict => verdict = .failure .cancelled
  | _ => False

/-- How many steps a thread that comes back as cancelled has left. -/
def ThreadPhase.cancelLeft : ThreadPhase D → Nat
  | .starting => 6
  | .running .entered => 5
  | .running _ => 4
  | .unlocked _ => 3
  | .freed _ => 2
  | .logged _ => 1
  | _ => 0

/-- How many steps a call has left once its abort flag is raised. -/
def CallPhase.returnLeft : CallPhase D → Nat
  | .registered claimed _ => claimed.length + 3
  | .handingBack rest => rest.length + 2
  | .launching rest .. => rest.length + 4
  | .collecting c _ =>
    match c.cursor with
    | .head => 3
    | .place place => (c.places.length - place) + 4
  | .signalling _ => 2
  | .leaving _ => 1
  | _ => 0

/-- Whether a poll belongs to the pass that a call is in: it comes to a place that is ahead of it,
and for the worker that is waited for there. -/
def CallPhase.Ahead (start : CallPhase D) (poll : Poll D.Artifact) : Prop :=
  ∃ c abort first, start = .collecting c abort ∧ c.cursor = .place first ∧ first ≤ poll.place ∧
    c.places[poll.place]? = some (some poll.pending)

/-- Polls of the pass that a call is in, at most one for each place. -/
def CallPhase.Finishes (start : CallPhase D) (polls : List (Poll D.Artifact)) : Prop :=
  polls.Pairwise (fun first second => first.place < second.place) ∧
    ∀ poll ∈ polls, start.Ahead poll

/-- How a race ends that is called off in a phase, by the polls that come after: with what it has
decided, with a success that it still sees, or as aborted. -/
def CallPhase.EndsWith (start : CallPhase D) (polls : List (Poll D.Artifact))
    (ending : Ending D.Artifact) : Prop :=
  (∀ decided, start.decided? = some decided → ending = decided) ∧
    (start.decided? = none → (∀ poll ∈ polls, poll.isWin = false) → ending = .outcome .aborted) ∧
    ∀ poll ∈ polls, ∀ artifact, poll.found = .ready (.success artifact) →
      ending = .outcome (.succeeded poll.pending.worker artifact)

/-- A collector that was called off in a pass is at a place of that pass, past what it has polled,
and has changed nothing ahead. -/
def Collector.Resumes {α : Type} (c first : Collector) (polls : List (Poll α)) (place : Nat) :
    Prop :=
  (∀ poll ∈ polls, poll.place < place) ∧
    (∃ opening, first.cursor = .place opening ∧ opening ≤ place) ∧
    ∀ ahead, place ≤ ahead → c.places[ahead]? = first.places[ahead]?

/-- What the phase of a call says after it was called off in an earlier one: what it has polled
since shows no success, or it has decided. -/
def CallPhase.Wanes (start : CallPhase D) (polls : List (Poll D.Artifact)) : CallPhase D → Prop
  | .registered .. => start.decided? = none ∧ polls = []
  | .handingBack _ => start.decided? = none ∧ polls = []
  | .launching .. => start.decided? = none ∧ polls = []
  | .collecting c _ =>
    start.decided? = none ∧ (∀ poll ∈ polls, poll.isWin = false) ∧
      ∀ place, c.cursor = .place place →
        ∃ first abort, start = .collecting first abort ∧ c.Resumes first polls place
  | .signalling outcome => start.EndsWith polls (.outcome outcome)
  | .leaving ending => start.EndsWith polls ending
  | .ended ending => start.EndsWith polls ending
  | _ => False

namespace Machine

/-- What holds of a race from an abort after its registration on: it registers no more, its tokens
are stopped and its abort flag is raised. -/
structure Halted (m : Machine D) (index : Nat) : Prop where
  registered : (m.phaseOf index).isRegistered = true
  tokens : ∀ token, m.Issued index token → m.flags.isStopped token = true
  handle : ∀ abort, (m.phaseOf index).abort? = some abort → m.flags.isStopped abort = true

section Moves

variable {m next effect : Machine D} {left : List Nat} {index runner : Nat} {problem : D.Problem}
  {event : Event D} {start before after : CallPhase D} {thread : Thread D} {housed : Slot D}
  {phase later : ThreadPhase D} {polls : List (Poll D.Artifact)}

theorem CallMove.isRegistered (move : CallMove m index problem event before effect after)
    (registered : before.isRegistered = true) : after.isRegistered = true := by
  cases move with
  | calledOff | goesAhead | handedBack | handsBack | launched | launches | notStarted | collects
    | loses | decides | signals | leaves => rfl
  | _ => cases registered

theorem Halted.move (halted : m.Halted index) (move : Move m event next) : next.Halted index := by
  have past (claimed : List Nat) : m.phaseOf index ≠ .registering claimed := by
    intro registering
    have registered := halted.registered
    rw [registering] at registered
    cases registered
  constructor
  · by_cases own : event.party? = some (.call index)
    · obtain ⟨problem, before, effect, after, there, own, rfl⟩ := move.exists_callMove own
      rw [phaseOf_setCall_self own.calls_eq there]
      exact own.isRegistered (phaseOf_eq there ▸ halted.registered)
    · rw [move.phaseOf_eq own]
      exact halted.registered
  · intro token issued
    rcases move.issued_before issued with former | ⟨-, claimed, registering, -⟩
    · exact move.isStopped_mono (halted.tokens token former)
    · exact absurd registering (past claimed)
  · intro abort handle
    apply move.isStopped_mono
    by_cases own : event.party? = some (.call index)
    · obtain ⟨problem, before, effect, after, there, own, rfl⟩ := move.exists_callMove own
      rw [phaseOf_setCall_self own.calls_eq there] at handle
      rcases own.abort_before handle with former | ⟨⟨claimed, rfl⟩, -⟩
      · exact halted.handle abort (phaseOf_eq there ▸ former)
      · exact absurd (phaseOf_eq there) (past claimed)
    · rw [move.phaseOf_eq own] at handle
      exact halted.handle abort handle

/-! ## The threads -/

theorem isCancelling_of_isUnlooked (unlooked : phase.isUnlooked = true) : phase.isCancelling := by
  cases phase with
  | starting => trivial
  | running run =>
    cases run with
    | entered => trivial
    | _ => cases unlooked
  | _ => cases unlooked

/-- A thread whose token is stopped and that has not looked comes back as cancelled. -/
theorem ThreadMove.isCancelling (move : ThreadMove m runner thread housed phase effect later)
    (stopped : m.flags.isStopped thread.token = true) (cancelling : phase.isCancelling) :
    later.isCancelling ∧ later.cancelLeft < phase.cancelLeft := by
  cases move with
  | locks => exact ⟨trivial, Nat.lt_succ_self _⟩
  | @runs run goesOn =>
    cases run with
    | entered =>
      rw [Worker.step, stopped]
      exact ⟨rfl, Nat.lt_succ_self _⟩
    | finished => cases goesOn
    | copying | solving | died => exact cancelling.elim
  | finishes | frees | logs | reports => exact ⟨cancelling, Nat.lt_succ_self _⟩
  | dies => exact cancelling.elim

/-- A thread that wants the worker of its slot gets it: nobody else is inside. -/
theorem Balanced.unlocked_of_starting (balanced : Balanced m left)
    (there : m.threads[runner]? = some thread) (starting : thread.phase = .starting)
    (located : m.slots[thread.slot]? = some housed) : housed.locked = false := by
  have holds : m.Holds (.thread runner) thread.slot := ⟨thread, there, by rw [starting]; rfl, rfl⟩
  cases locked : housed.locked with
  | false => rfl
  | true =>
    have positive : 0 < m.insiders thread.slot := by
      rw [balanced.locks thread.slot]
      exact toNat_pos_iff.mpr (by simp [isLocked, located, locked])
    obtain ⟨other, insider, placed, counts⟩ := exists_of_sum_map_pos _ positive
    rw [toNat_pos_iff, Bool.and_eq_true, beq_iff_eq] at counts
    have also : m.Holds (.thread other) thread.slot := by
      refine ⟨insider, placed, ?_, counts.2⟩
      cases phase : insider.phase with
      | running => rfl
      | _ => rw [phase] at counts; cases counts.1
    obtain rfl := Party.thread.inj (balanced.holder_unique holds also)
    obtain rfl := Option.some.inj (placed.symm.trans there)
    rw [starting] at counts
    cases counts.1

/-- Whether the thread of an index comes back as cancelled, with so many steps left. -/
def Cancels (m : Machine D) (runner count : Nat) : Prop :=
  ∃ thread, m.threads[runner]? = some thread ∧ thread.slot < m.slots.length ∧
    m.flags.isStopped thread.token = true ∧ thread.phase.isCancelling ∧
    thread.phase.cancelLeft = count

/-- A thread that comes back as cancelled can take a step until it has reported. -/
theorem Balanced.exists_thread_step (balanced : Balanced m left)
    (there : m.threads[runner]? = some thread) (inside : thread.slot < m.slots.length)
    (cancelling : thread.phase.isCancelling) (goesOn : thread.phase.cancelLeft ≠ 0) :
    ∃ next, m.step (.thread runner) = some next := by
  have located := List.getElem?_eq_getElem inside
  apply Option.ne_none_iff_exists'.mp
  simp only [step, stepThread, there, Option.bind_eq_bind, Option.bind_some, located]
  cases phase : thread.phase with
  | starting =>
    simp only [balanced.unlocked_of_starting there phase located]
    exact Option.some_ne_none _
  | reported verdict =>
    rw [phase] at goesOn
    exact absurd rfl goesOn
  | died panic =>
    rw [phase] at cancelling
    exact cancelling.elim
  | _ => exact Option.some_ne_none _

theorem Cancels.step {count : Nat} (cancels : m.Cancels runner count) (balanced : Balanced m left)
    (goesOn : count ≠ 0) :
    ∃ next fewer, m.step (.thread runner) = some next ∧ next.Cancels runner fewer ∧
      fewer < count := by
  obtain ⟨thread, there, inside, stopped, cancelling, rfl⟩ := cancels
  obtain ⟨next, step⟩ := balanced.exists_thread_step there inside cancelling goesOn
  have move := move_of_step step
  obtain ⟨_, _, later, -, own, -, now⟩ := move.exists_threadMove there
  obtain ⟨kept, fewer⟩ := own.isCancelling stopped cancelling
  exact ⟨next, later.cancelLeft, step, ⟨_, now, move.length_slots ▸ inside,
    move.isStopped_mono stopped, kept, rfl⟩, fewer⟩

/-- A thread that comes back as cancelled does so by its own steps. -/
theorem Cancels.comes_back {count : Nat} (cancels : m.Cancels runner count)
    (balanced : Balanced m left) :
    ∃ own last thread, (∀ event ∈ own, event = .thread runner) ∧ m.steps own = some last ∧
      last.threads[runner]? = some thread ∧ thread.phase = .reported (.failure .cancelled) := by
  induction count using Nat.strongRecOn generalizing m left with
  | ind count ih =>
    by_cases last : count = 0
    · obtain ⟨thread, there, -, -, cancelling, stepsLeft⟩ := cancels
      refine ⟨[], m, thread, fun _ listed => absurd listed List.not_mem_nil, rfl, there, ?_⟩
      cases phase : thread.phase with
      | reported verdict =>
        rw [phase] at cancelling
        exact congrArg ThreadPhase.reported cancelling
      | died panic =>
        rw [phase] at cancelling
        exact cancelling.elim
      | running run =>
        rw [phase] at stepsLeft
        cases run <;> exact absurd (stepsLeft.trans last) nofun
      | _ =>
        rw [phase] at stepsLeft
        exact absurd (stepsLeft.trans last) nofun
    · obtain ⟨next, fewer, step, cancels, less⟩ := cancels.step balanced last
      obtain ⟨own, last, thread, owns, run, back⟩ :=
        ih fewer less cancels (balanced.move (move_of_step step))
      refine ⟨.thread runner :: own, last, thread, ?_, ?_, back⟩
      · exact List.forall_mem_cons.mpr ⟨rfl, owns⟩
      · rw [steps_cons, step, Option.bind_some, run]

/-! ## The polls -/

theorem isWin_of_success {poll : Poll D.Artifact} {artifact : D.Artifact}
    (won : poll.found = .ready (.success artifact)) : poll.isWin = true := by
  rw [Poll.isWin, won]

theorem isWin_eq_false_of_unseen {poll : Poll D.Artifact} (unseen : poll.isSeen = false) :
    poll.isWin = false := by
  obtain ⟨place, pending, found⟩ := poll
  cases found with
  | empty => rfl
  | ready verdict => cases unseen
  | vanished => cases unseen

/-- A collector that was called off goes on in a pass only, and past a place that shows no
success. -/
theorem goesOn_of_calledOff {c next : Collector} {look : Pending → Look D.Artifact}
    {calledOff : Bool} (looked : c.step calledOff look = .goesOn next) (off : calledOff = true) :
    ∃ place, c.cursor = .place place ∧ (next = c.pass place ∨ next = c.drop place) ∧
      ∀ poll, c.poll? look = some poll → poll.isWin = false := by
  rcases Collector.goesOn_by looked with ⟨-, -, unstopped, -⟩ |
    ⟨place, cursor, ⟨passed, unseen⟩ | ⟨poll, polled, -, -, lost, dropped⟩⟩
  · exact absurd off (ne_true_of_eq_false unstopped)
  · exact ⟨place, cursor, .inl passed,
      fun poll polled => isWin_eq_false_of_unseen (unseen poll polled)⟩
  · refine ⟨place, cursor, .inr dropped, fun other also => ?_⟩
    obtain rfl := Option.some.inj (polled.symm.trans also)
    exact lost

/-- A collector past a place comes to the next one or to the end of its pass, and finds there what
was there. -/
theorem after_place {c next : Collector} {place : Nat}
    (passed : next = c.pass place ∨ next = c.drop place) :
    (next.cursor = .place (place + 1) ∧ place + 1 < c.places.length ∨ next.cursor = .head) ∧
      next.places.length = c.places.length ∧
      ∀ ahead, place < ahead → next.places[ahead]? = c.places[ahead]? := by
  rcases passed with rfl | rfl
  · refine ⟨?_, rfl, fun _ _ => rfl⟩
    by_cases more : place + 1 < c.places.length
    · exact .inl ⟨if_pos more, more⟩
    · exact .inr (if_neg more)
  · have size : (c.places.set place none).length = c.places.length := List.length_set ..
    refine ⟨?_, size, fun _ beyond => List.getElem?_set_ne (Nat.ne_of_lt beyond)⟩
    by_cases more : place + 1 < c.places.length
    · exact .inl ⟨if_pos (size.symm ▸ more), more⟩
    · exact .inr (if_neg (size.symm ▸ more))

/-- A call that has decided says how it ends. -/
theorem endsWith_decided {ending : Ending D.Artifact} (decided : start.decided? = some ending)
    (unpolled : polls = []) : start.EndsWith polls ending := by
  subst unpolled
  refine ⟨fun other same => Option.some.inj (decided.symm.trans same), fun undecided => ?_, nofun⟩
  exact absurd (decided.symm.trans undecided) nofun

/-- What a collector that was called off in a pass does at a place of that pass. -/
theorem Resumes.pass {c first next : Collector} {place later : Nat}
    (resumes : c.Resumes first polls place) {look : Pending → Look D.Artifact}
    (cursor : c.cursor = .place place) (passed : next = c.pass place ∨ next = c.drop place)
    (now : next.cursor = .place later) :
    next.Resumes first (polls ++ (c.poll? look).toList) later := by
  obtain ⟨behind, ⟨opening, opens, past⟩, same⟩ := resumes
  obtain ⟨moved, -, unchanged⟩ := after_place passed
  have moved : later = place + 1 := by
    rcases moved with ⟨moved, -⟩ | ends
    · exact Cursor.place.inj (now.symm.trans moved)
    · cases now.symm.trans ends
  subst moved
  refine ⟨fun poll listed => ?_, ⟨opening, opens, Nat.le_succ_of_le past⟩, fun ahead beyond => ?_⟩
  · rcases List.mem_append.mp listed with former | new
    · exact Nat.lt_succ_of_lt (behind poll former)
    · obtain ⟨⟨here, -⟩, -⟩ := Collector.at_of_poll? (Option.mem_toList.mp new)
      obtain rfl := Cursor.place.inj (here.symm.trans cursor)
      exact Nat.lt_succ_self _
  · rw [unchanged ahead beyond, same ahead (Nat.le_of_succ_le beyond)]

/-- The next poll of a call that was called off is one of the pass that it was in. -/
theorem Finishes.poll {c : Collector} {abort : Token} (finishes : start.Finishes polls)
    (wanes : start.Wanes polls (.collecting c abort)) {look : Pending → Look D.Artifact} :
    start.Finishes (polls ++ (c.poll? look).toList) := by
  cases polled : c.poll? look with
  | none => simpa only [Option.toList_none, List.append_nil] using finishes
  | some poll =>
    obtain ⟨⟨cursor, held⟩, -⟩ := Collector.at_of_poll? polled
    obtain ⟨-, -, resumes⟩ := wanes
    obtain ⟨first, handle, rfl, behind, ⟨opening, opens, past⟩, same⟩ := resumes poll.place cursor
    rw [same poll.place (Nat.le_refl _)] at held
    obtain ⟨ordered, ahead⟩ := finishes
    constructor
    · refine List.pairwise_append.mpr ⟨ordered, List.pairwise_singleton .., ?_⟩
      intro former listed new last
      rw [List.mem_singleton.mp last]
      exact behind former listed
    · intro other listed
      rcases List.mem_append.mp listed with former | new
      · exact ahead other former
      · rw [List.mem_singleton.mp new]
        exact ⟨first, handle, opening, rfl, opens, past, held⟩

theorem CallMove.finishes (move : CallMove m index problem event before effect after)
    (there : m.calls[index]? = some ⟨problem, before⟩) (wanes : start.Wanes polls before)
    (finishes : start.Finishes polls) :
    start.Finishes (polls ++ pollsOf index m event next) := by
  have now : m.phaseOf index = before := phaseOf_eq there
  cases before with
  | collecting c abort =>
    have own : event = .call index := by cases move <;> rfl
    rw [own, pollsOf_collecting now]
    exact Finishes.poll finishes wanes
  | _ =>
    rw [pollsOf_eq_nil (by rw [now]; rfl), List.append_nil]
    exact finishes

/-- A call that was called off after it registered goes the way that is left to it. -/
theorem CallMove.wanes (move : CallMove m index problem event before effect after)
    (there : m.calls[index]? = some ⟨problem, before⟩)
    (stopped : ∀ abort, before.abort? = some abort → m.flags.isStopped abort = true)
    (wanes : start.Wanes polls before) :
    start.Wanes (polls ++ pollsOf index m event next) after := by
  have now : m.phaseOf index = before := phaseOf_eq there
  cases move with
  | @collects c later abort looked =>
    rw [pollsOf_collecting now]
    obtain ⟨undecided, lost, resumes⟩ := wanes
    obtain ⟨place, cursor, passed, loses⟩ := goesOn_of_calledOff looked (stopped abort rfl)
    obtain ⟨first, handle, rfl, here⟩ := resumes place cursor
    refine ⟨undecided, fun poll listed => ?_, fun next now => ?_⟩
    · rcases List.mem_append.mp listed with former | new
      · exact lost poll former
      · exact loses poll (Option.mem_toList.mp new)
    · exact ⟨first, handle, rfl, Resumes.pass here cursor passed now⟩
  | @loses c abort decided =>
    rcases Collector.decided_by decided with ⟨-, ⟨lost, -⟩ | ⟨-, unstopped, -⟩⟩ | ⟨_, _, _, _, lost⟩
    · cases lost
    · exact absurd (stopped abort rfl) (ne_true_of_eq_false unstopped)
    · cases lost
  | @decides c abort outcome decided other =>
    rw [pollsOf_collecting now]
    obtain ⟨undecided, lost, -⟩ := wanes
    rcases Collector.decided_by decided with ⟨unpolled, ⟨rfl, -⟩ | ⟨lost, -⟩⟩ |
      ⟨poll, artifact, polled, won, rfl⟩
    · rw [unpolled, Option.toList_none, List.append_nil]
      refine ⟨fun ending decided => absurd (undecided.symm.trans decided) nofun, fun _ _ => rfl, ?_⟩
      intro poll listed artifact won
      exact absurd (isWin_of_success won) (ne_true_of_eq_false (lost poll listed))
    · exact absurd lost other
    · rw [polled, Option.toList_some]
      refine ⟨fun ending decided => absurd (undecided.symm.trans decided) nofun, ?_, ?_⟩
      · intro _ unseen
        have loses := unseen poll (List.mem_append_right _ (List.mem_singleton_self poll))
        exact absurd (isWin_of_success won) (ne_true_of_eq_false loses)
      · intro other listed prize also
        rcases List.mem_append.mp listed with former | new
        · exact absurd (isWin_of_success also) (ne_true_of_eq_false (lost other former))
        · obtain rfl := List.mem_singleton.mp new
          rw [won] at also
          cases also
          rfl
  | goesAhead unstopped => exact absurd (stopped _ rfl) (ne_true_of_eq_false unstopped)
  | launched =>
    rw [pollsOf_eq_nil (by rw [now]; rfl), List.append_nil]
    obtain ⟨undecided, rfl⟩ := wanes
    exact ⟨undecided, nofun, nofun⟩
  | handedBack =>
    rw [pollsOf_eq_nil (by rw [now]; rfl), List.append_nil]
    obtain ⟨undecided, rfl⟩ := wanes
    exact ⟨fun ending decided => absurd (undecided.symm.trans decided) nofun, fun _ _ => rfl, nofun⟩
  | calledOff | handsBack | launches | notStarted | signals | leaves =>
    rw [pollsOf_eq_nil (by rw [now]; rfl), List.append_nil]
    exact wanes
  | _ => exact wanes.elim

/-! ## The way back -/

/-- A call whose abort flag is raised comes closer to its end by each of its steps. -/
theorem CallMove.returnLeft_lt (move : CallMove m index problem event before effect after)
    (registered : before.isRegistered = true)
    (stopped : ∀ abort, before.abort? = some abort → m.flags.isStopped abort = true) :
    after.returnLeft < before.returnLeft := by
  cases move with
  | calledOff =>
    simp only [CallPhase.returnLeft, List.length_map]
    omega
  | goesAhead unstopped => exact absurd (stopped _ rfl) (ne_true_of_eq_false unstopped)
  | handedBack | handsBack | launches | notStarted | signals | leaves =>
    simp [CallPhase.returnLeft]
  | launched => exact Nat.lt_succ_self _
  | @collects c later abort looked =>
    obtain ⟨place, cursor, passed, -⟩ := goesOn_of_calledOff looked (stopped abort rfl)
    obtain ⟨⟨moved, more⟩ | ends, size, -⟩ := after_place passed
    · simp only [CallPhase.returnLeft, cursor, moved, size]
      omega
    · simp only [CallPhase.returnLeft, cursor, ends]
      omega
  | loses | decides =>
    simp only [CallPhase.returnLeft]
    split <;> omega
  | _ => cases registered

theorem CallPhase.inFlight_of_registered (registered : before.isRegistered = true)
    (goesOn : ∀ ending, before ≠ .ended ending) : before.inFlight = true := by
  cases before with
  | arriving => cases registered
  | ended ending => exact absurd rfl (goesOn ending)
  | _ => rfl

/-- A race that was called off after it registered comes back by its own steps. -/
theorem Halted.comes_back (halted : m.Halted index) (balanced : Balanced m left) :
    ∃ own last ending, (∀ event ∈ own, event.party? = some (.call index)) ∧
      m.steps own = some last ∧ last.ending? index = some ending := by
  obtain ⟨own, last, owns, run, -, ending, ended⟩ := exists_steps_of_measure
    (fun event => event.party? = some (.call index))
    (fun m => (∃ left, Balanced m left) ∧ m.Halted index)
    (fun m => ∃ ending, m.ending? index = some ending)
    (fun m => (m.phaseOf index).returnLeft) (by
      rintro m ⟨⟨left, balanced⟩, halted⟩ goesOn
      have flying := CallPhase.inFlight_of_registered halted.registered
        fun ending ended => goesOn ⟨ending, ending_of_phaseOf ended⟩
      obtain ⟨event, next, own, step⟩ := balanced.exists_step_of_flight (inFlight_iff.mpr flying)
      have move := move_of_step step
      refine ⟨event, next, own, step, ⟨⟨_, balanced.move move⟩, halted.move move⟩, ?_⟩
      obtain ⟨problem, before, effect, after, there, mine, rfl⟩ := move.exists_callMove own
      rw [phaseOf_setCall_self mine.calls_eq there, phaseOf_eq there]
      have now := phaseOf_eq there
      exact mine.returnLeft_lt (now ▸ halted.registered) (now ▸ halted.handle))
    ⟨⟨left, balanced⟩, halted⟩
  exact ⟨own, last, ending, owns, run, ended⟩

end Moves

/-! ## From the abort on -/

section Run

variable {workers : List (Worker D)} {waits : Waits} {logs : Bool} {shared : σ}
  {m start later : Machine D} {events : List (Event D)} {index runner : Nat} {thread : Thread D}
  {phase : CallPhase D}

/-- An abort after registration misses no token. -/
theorem halted_of_abort (run : (ofWorkers workers waits logs shared).steps events = some m)
    (flying : m.InFlight index) (registered : (m.phaseOf index).isUnregistered = false) :
    m.abort.2.Halted index ∧
      ∀ token ∈ m.flight.bridge.tokens, m.abort.2.flags.isStopped token = true := by
  have fenced := fenced_of_steps run
  have racing : m.flight.racing = true := (balanced_of_steps run).racing_iff.mpr ⟨index, flying⟩
  have called : m.abort = (true, m.abort.2) := by
    unfold abort
    rw [if_pos racing]
  have stopped (token : Token) (listed : token ∈ m.flight.bridge.tokens) :
      m.abort.2.flags.isStopped token = true := by
    unfold abort
    rw [if_pos racing]
    refine Flags.isStopped_foldl_of_mem listed ?_
    show token.flag < (m.flags.raised.set m.flight.abort.flag true).length
    rw [List.length_set]
    exact fenced.reached token listed
  have same : m.abort.2.phaseOf index = m.phaseOf index := by
    simp only [phaseOf, calls_abort]
  refine ⟨⟨?_, fun token issued => ?_, fun abort handle => ?_⟩, stopped⟩
  · rw [same]
    have flies := inFlight_iff.mp flying
    cases phase : m.phaseOf index with
    | arriving =>
      rw [phase] at flies
      cases flies
    | _ =>
      rw [phase] at registered
      first | rfl | cases registered
  · have issued := (Move.aborts.issued_before issued).resolve_right fun made => by cases made.1
    exact stopped token (fenced.own index token flying issued)
  · rw [same] at handle
    rw [handle_of_steps run handle, ← flight_abort m]
    exact (isStopped_of_abort run called).1

theorem Halted.steps (halted : start.Halted index) (run : start.steps events = some later) :
    later.Halted index := by
  induction events, later, run using steps_induction with
  | nothing => exact halted
  | more events m event next run step ih => exact ih.move (move_of_step step)

/-- A thread that had not looked at its token when its race was called off, or that was started
later, comes back as cancelled. -/
theorem Halted.isCancelling (halted : start.Halted index) (run : start.steps events = some later)
    (there : later.threads[runner]? = some thread) (mine : thread.call = index)
    (unlooked : ∀ former, start.threads[runner]? = some former → former.phase.isUnlooked = true) :
    thread.phase.isCancelling := by
  induction events, later, run using steps_induction generalizing thread with
  | nothing => exact isCancelling_of_isUnlooked (unlooked thread there)
  | more events m event next run step ih =>
    have move := move_of_step step
    rcases move.thread_before there with ⟨phase, former⟩ | ⟨-, starting, -⟩
    · have cancelling : phase.isCancelling := ih former mine
      by_cases own : event = .thread runner
      · subst own
        have stopped := (halted.steps run).tokens thread.token
          (.inr ⟨{ thread with phase }, List.mem_of_getElem? former, mine, rfl⟩)
        obtain ⟨_, _, _, -, own, -, now⟩ := move.exists_threadMove former
        rw [← Option.some.inj (now.symm.trans there)]
        exact (own.isCancelling stopped cancelling).1
      · rw [← Option.some.inj ((move.threads_eq former own).symm.trans there)]
        exact cancelling
    · rw [starting]
      trivial

/-- What a race that was called off polls and how it ends. -/
theorem Halted.wanes (halted : start.Halted index) (begins : phase.Wanes [] (start.phaseOf index))
    (run : start.steps events = some later) :
    phase.Wanes (start.pollsBy index events) (later.phaseOf index) ∧
      phase.Finishes (start.pollsBy index events) := by
  induction events, later, run using steps_induction with
  | nothing => exact ⟨begins, .nil, nofun⟩
  | more events m event next run step ih =>
    obtain ⟨wanes, finishes⟩ := ih
    have move := move_of_step step
    rw [pollsBy, record_concat run step]
    by_cases own : event.party? = some (.call index)
    · obtain ⟨problem, before, effect, after, there, own, rfl⟩ := move.exists_callMove own
      have handle := (halted.steps run).handle
      rw [phaseOf_eq there] at wanes handle
      rw [phaseOf_setCall_self own.calls_eq there]
      exact ⟨own.wanes there handle wanes, own.finishes there wanes finishes⟩
    · rw [pollsOf_other own, move.phaseOf_eq own, List.append_nil]
      exact ⟨wanes, finishes⟩

/-- A call wanes from the moment it is called off. -/
theorem wanes_of_registered (registered : phase.isRegistered = true)
    (flying : phase.inFlight = true) : phase.Wanes [] phase := by
  cases phase with
  | collecting c abort =>
    refine ⟨rfl, nofun, fun place cursor => ?_⟩
    exact ⟨c, abort, rfl, nofun, ⟨place, cursor, Nat.le_refl _⟩, fun _ _ => rfl⟩
  | registered | handingBack | launching => exact ⟨rfl, rfl⟩
  | signalling | leaving => exact endsWith_decided rfl rfl
  | ended => cases flying
  | _ => cases registered

end Run

/-- An abort changes something exactly if a race is in flight. A race that it finds after its
registration is stopped as a whole: its threads that had not looked at their token come back as
cancelled, and it comes back as aborted, unless it has decided or sees a success in the pass that it
is in. -/
theorem abort_after_registration {workers : List (Worker D)} {waits : Waits} {logs : Bool}
    {shared : σ} {before : List (Event D)} {m : Machine D}
    (run : (ofWorkers workers waits logs shared).steps before = some m) :
    (m.abort.1 = true ↔ ∃ index, m.InFlight index) ∧ (m.abort.1 = false → m.abort.2 = m) ∧
    ∀ index, m.InFlight index → (m.phaseOf index).isUnregistered = false →
      ∀ after later, m.abort.2.steps after = some later →
      -- Every token of the race is stopped.
      (∀ token, token ∈ m.flight.bridge.tokens ∨ later.Issued index token →
        later.flags.isStopped token = true) ∧
      -- A thread that had not looked at its token, or that is started later, does not solve. By its
      -- own steps it comes back as cancelled.
      (∀ runner thread, later.threads[runner]? = some thread → thread.call = index →
        (∀ former, m.threads[runner]? = some former → former.phase.isUnlooked = true) →
        thread.phase.isCancelling ∧
        ∃ own last back, (∀ event ∈ own, event = .thread runner) ∧ later.steps own = some last ∧
          last.threads[runner]? = some back ∧ back.phase = .reported (.failure .cancelled)) ∧
      -- The race polls each place at most once more, and only in the pass that it is in.
      (m.phaseOf index).Finishes (m.abort.2.pollsBy index after) ∧
      -- It ends with what it had decided or with a success of that pass, and else as aborted. A
      -- pass that begins looks at the abort flag and at the failures in one step, since it alone
      -- knows the failures: a race that found everybody failed after that look has decided.
      (∀ ending, later.ending? index = some ending →
        (m.phaseOf index).EndsWith (m.abort.2.pollsBy index after) ending) ∧
      -- It does come back, by its own steps.
      ∃ own last ending, (∀ event ∈ own, event.party? = some (.call index)) ∧
        later.steps own = some last ∧ last.ending? index = some ending := by
  have balanced := balanced_of_steps run
  refine ⟨?_, ?_, ?_⟩
  · rw [← balanced.racing_iff]
    unfold abort isRacing
    cases m.flight.racing <;> exact Iff.rfl
  · unfold abort
    split
    · exact nofun
    · exact fun _ => rfl
  · intro index flying registered after later more
    obtain ⟨halted, stopped⟩ := halted_of_abort run flying registered
    have called : m.step .abort = some m.abort.2 := rfl
    have whole := steps_concat run called
    have total : (ofWorkers workers waits logs shared).steps ((before ++ [.abort]) ++ after) =
        some later := by
      rw [steps_append, whole, Option.bind_some, more]
    have same : m.abort.2.phaseOf index = m.phaseOf index := by
      simp only [phaseOf, calls_abort]
    have begins : (m.phaseOf index).Wanes [] (m.abort.2.phaseOf index) := by
      rw [same]
      exact wanes_of_registered (same ▸ halted.registered) (inFlight_iff.mp flying)
    have last := halted.steps more
    obtain ⟨wanes, finishes⟩ := halted.wanes begins more
    refine ⟨fun token listed => ?_, fun runner thread there mine unlooked => ?_, finishes,
      fun ending ended => ?_, last.comes_back (balanced_of_steps total)⟩
    · rcases listed with listed | issued
      · exact stopped_of_steps more (stopped token listed)
      · exact last.tokens token issued
    · have cancelling := halted.isCancelling more there mine fun former before =>
        unlooked former (threads_abort m ▸ before)
      have issued : later.Issued index thread.token :=
        .inr ⟨thread, List.mem_of_getElem? there, mine, rfl⟩
      have cancels : later.Cancels runner thread.phase.cancelLeft :=
        ⟨thread, there, slot_lt_of_steps total there, last.tokens _ issued, cancelling, rfl⟩
      exact ⟨cancelling, cancels.comes_back (balanced_of_steps total)⟩
    · rw [phaseOf_of_ending ended] at wanes
      exact wanes

/-- Two workers that wait for a release or a stop. -/
def twoHolding : Scripted.Script Nat Nat := { acts := [[.hold 5], [.hold 6]] }

/-- The first worker solves and the second has not begun, and the call has polled the place of the
first. -/
def inThePass : List (Event twoHolding.domain) :=
  [Event.arrive (0 : Nat)] ++ List.replicate 11 (Event.call 0) ++
    List.replicate 3 (Event.thread 0) ++ List.replicate 2 (Event.call 0)

theorem called_off_in_a_pass :
    ∃ m later, (twoHolding.coordinator { poll := 0, busy := 0 }).steps inThePass = some m ∧
      m.abort.1 = true ∧ m.abort.2.steps (List.replicate 4 (Event.call 0)) = some later ∧
      -- The call polls the place of the second worker and comes back.
      (m.abort.2.pollsBy 0 (List.replicate 4 (Event.call 0))).map (·.place) = [1] ∧
      later.ending? 0 = some (.outcome .aborted) ∧
      -- The second worker comes back as cancelled.
      ∃ own last back, (∀ event ∈ own, event = .thread 1) ∧ later.steps own = some last ∧
        last.threads[1]? = some back ∧ back.phase = .reported (.failure .cancelled) := by
  obtain ⟨m, later, former, thread, run, registered, undecided, more, places, unseen, ending, ended,
      before, there, unlooked, mine, flies⟩ :
      ∃ m later former thread,
        (twoHolding.coordinator { poll := 0, busy := 0 }).steps inThePass = some m ∧
        (m.phaseOf 0).isUnregistered = false ∧ (m.phaseOf 0).decided? = none ∧
        m.abort.2.steps (List.replicate 4 (Event.call 0)) = some later ∧
        (m.abort.2.pollsBy 0 (List.replicate 4 (Event.call 0))).map (·.place) = [1] ∧
        (m.abort.2.pollsBy 0 (List.replicate 4 (Event.call 0))).all (fun poll => !poll.isWin) =
          true ∧
        ∃ ending, later.ending? 0 = some ending ∧ m.threads[1]? = some former ∧
          later.threads[1]? = some thread ∧ former.phase.isUnlooked = true ∧ thread.call = 0 ∧
          (m.phaseOf 0).inFlight = true :=
    ⟨_, _, _, _, rfl, rfl, rfl, rfl, rfl, rfl, _, rfl, rfl, rfl, rfl, rfl, rfl⟩
  have flying := inFlight_iff.mpr flies
  obtain ⟨answers, -, called⟩ := abort_after_registration run
  obtain ⟨-, cancelled, -, ends, -⟩ := called 0 flying registered _ later more
  have aborted : ending = .outcome .aborted := by
    refine (ends ending ended).2.1 undecided fun poll listed => ?_
    simpa using List.all_eq_true.mp unseen poll listed
  refine ⟨m, later, run, answers.mpr ⟨0, flying⟩, more, places, aborted ▸ ended, ?_⟩
  refine (cancelled 1 thread there mine fun other also => ?_).2
  rw [← Option.some.inj (before.symm.trans also)]
  exact unlooked

end Machine

end MotionRace
