import MotionRace.Proofs.Race.Survey

/-!
# Whom a race launches

A race that is not called off before its start tries to start a thread for each slot that it kept,
in pool order. The system may refuse one; the others run. Nobody else takes part: what a race counts
as failed are the threads that were refused to it and the polls of its own threads, and it has lost
when these are as many as the slots that it kept.

Main statements: `launches_of_steps`, `crew_of_steps` and `failures_of_lost`.
-/

namespace MotionRace

/-- A collector that goes on has launched what it had launched. -/
theorem Collector.launched_of_goesOn {α : Type} {c next : Collector} {calledOff : Bool}
    {look : Pending → Look α} (looked : c.step calledOff look = .goesOn next) :
    next.launched = c.launched := by
  rcases goesOn_cases looked with ⟨-, -, rfl⟩ | ⟨_, rfl⟩ | ⟨_, _, rfl, -⟩ <;> rfl

variable {σ : Type} {D : Domain σ}

/-- An attempt of a call to start a thread for a slot, and whether the thread was started. -/
structure Attempt where
  slot : Nat
  started : Bool
  deriving Repr, DecidableEq

/-- The slots for which a thread was started. -/
def Attempt.crew (attempts : List Attempt) : List Nat :=
  (attempts.filter (·.started)).map (·.slot)

@[simp] theorem Attempt.crew_append (attempts more : List Attempt) :
    crew (attempts ++ more) = crew attempts ++ crew more := by
  simp only [crew, List.filter_append, List.map_append]

/-- What an ending says of the slots that a call kept and tried to launch; `off` is whether it was
called off. -/
def Ending.Launches {α : Type} (off : Prop) (kept tried : List Nat) : Ending α → Prop
  | .outcome .aborted => tried = kept ∨ off ∧ tried = []
  | .outcome _ => tried = kept
  | .refused _ => tried = []
  | .panicked _ => tried = []

/-- What the phase of a call says of the slots that it kept and tried to launch. -/
def CallPhase.Launches (off : Prop) (kept tried : List Nat) : CallPhase D → Prop
  | .handingBack _ => off ∧ tried = []
  | .launching rest _ _ count _ => tried ++ rest.map (·.1) = kept ∧ count = kept.length
  | .collecting c _ => tried = kept ∧ c.launched = kept.length
  | .signalling _ => tried = kept
  | .leaving ending => ending.Launches off kept tried
  | .ended ending => ending.Launches off kept tried
  | _ => tried = []

/-- What the phase of a call says of a race that was not called off: it is going to find the abort
flag lowered, or has found it lowered, or does not come as far as to look. -/
def CallPhase.IsOn (m : Machine D) : CallPhase D → Prop
  | .waiting => m.flags.isStopped m.flight.abort = false
  | .claiming .. => m.flags.isStopped m.flight.abort = false
  | .asking .. => m.flags.isStopped m.flight.abort = false
  | .registering _ => m.flags.isStopped m.flight.abort = false
  | .registered _ abort => m.flags.isStopped abort = false
  | .handingBack _ => False
  | _ => True

/-- Whether a call in a phase has yet to try to launch some of the slots that it keeps. -/
def CallPhase.isPreparing : CallPhase D → Bool
  | .registering _ => true
  | .registered .. => true
  | .launching .. => true
  | phase => phase.isPassing

/-- Whether everybody failed in a race that ended so. -/
def Ending.isLost {α : Type} : Ending α → Bool
  | .outcome .allFailed => true
  | _ => false

/-- Whether a call in a phase has decided that everybody failed. -/
def CallPhase.isLost : CallPhase D → Bool
  | .signalling outcome => (Ending.outcome outcome).isLost
  | .leaving ending => ending.isLost
  | .ended ending => ending.isLost
  | _ => false

/-- A race stays on while nobody calls it off. -/
theorem CallPhase.IsOn.mono {m next : Machine D} {phase : CallPhase D} (on : phase.IsOn m)
    (calm : phase.isUndecided = true →
      ∀ token, next.flags.isStopped token = m.flags.isStopped token)
    (same : phase.inFlight = true → next.flight.abort = m.flight.abort) : phase.IsOn next := by
  cases phase with
  | waiting | claiming | asking | registering =>
    change next.flags.isStopped next.flight.abort = false
    rw [same rfl, calm rfl]
    exact on
  | registered claimed abort => exact (calm rfl abort).trans on
  | _ => exact on

/-! ## What the phase of a call says of its launches -/

section Launches

variable {off : Prop} {slots : Nat} {asked kept passed tried : List Nat}

theorem Ending.Launches.isPrefix {α : Type} {ending : Ending α}
    (launches : ending.Launches off kept tried) : tried <+: kept := by
  cases ending with
  | outcome outcome =>
    cases outcome with
    | aborted =>
      rcases launches with rfl | ⟨-, rfl⟩
      · exact List.prefix_refl _
      · exact List.nil_prefix
    | _ =>
      obtain rfl := launches
      exact List.prefix_refl _
  | refused | panicked =>
    obtain rfl := launches
    exact List.nil_prefix

/-- A call tries to launch the first of the slots that it kept. -/
theorem CallPhase.Launches.isPrefix {phase : CallPhase D}
    (launches : phase.Launches off kept tried) : tried <+: kept := by
  cases phase with
  | launching rest =>
    obtain ⟨rfl, -⟩ := launches
    exact List.prefix_append ..
  | collecting =>
    obtain ⟨rfl, -⟩ := launches
    exact List.prefix_refl _
  | signalling =>
    obtain rfl := launches
    exact List.prefix_refl _
  | handingBack =>
    obtain ⟨-, rfl⟩ := launches
    exact List.nil_prefix
  | leaving ending | ended ending => exact Ending.Launches.isPrefix launches
  | _ =>
    obtain rfl := launches
    exact List.nil_prefix

theorem Ending.Launches.eq_kept {α : Type} {ending : Ending α}
    (launches : ending.Launches off kept tried) (account : ending.Accounts slots asked kept passed)
    (flown : ending.hadFlight = true) (up : ending.isPanic = false) (on : ¬ off) :
    tried = kept := by
  cases ending with
  | outcome outcome =>
    cases outcome with
    | aborted => exact launches.resolve_right fun called => on called.1
    | _ => exact launches
  | refused error =>
    cases error with
    | alreadyRacing => cases flown
    | workersBusy busy =>
      obtain ⟨-, rfl, -⟩ := account
      exact launches
  | panicked => cases up

/-- A call that is done with its launches, and was neither taken down nor called off, has tried to
launch all the slots that it kept. -/
theorem CallPhase.Launches.eq_kept {phase : CallPhase D}
    (launches : phase.Launches off kept tried) (account : phase.Accounts slots asked kept passed)
    (begun : phase.begun = true) (up : phase.isDown = false) (ready : phase.isPreparing = false)
    (on : ¬ off) : tried = kept := by
  cases phase with
  | leaving ending | ended ending => exact Ending.Launches.eq_kept launches account begun up on
  | collecting => exact launches.1
  | signalling => exact launches
  | handingBack => exact absurd launches.1 on
  | arriving => cases begun
  | _ => cases ready

end Launches

namespace Machine

/-- The attempt of a call to start a thread. -/
def attemptsOf (index : Nat) (m : Machine D) (event : Event D) (_ : Machine D) : List Attempt :=
  match event, m.phaseOf index with
  | .call mover, .launching ((slot, _) :: _) .. => if mover = index then [⟨slot, true⟩] else []
  | .refuse mover, .launching ((slot, _) :: _) .. => if mover = index then [⟨slot, false⟩] else []
  | _, _ => []

/-- The attempts of a call in a history. -/
def attemptsBy (start : Machine D) (index : Nat) (events : List (Event D)) : List Attempt :=
  start.record (attemptsOf index) events

/-- The slots of the threads of a race, in the order in which they were started. -/
def crew (m : Machine D) (index : Nat) : List Nat :=
  m.threads.filterMap fun thread => if thread.call = index then some thread.slot else none

section Moves

variable {m next effect : Machine D} {left : List Nat} {index : Nat} {problem : D.Problem}
  {event : Event D} {before after : CallPhase D} {asked kept passed tried : List Nat} {off : Prop}

theorem attemptsOf_other (other : event.party? ≠ some (.call index)) :
    attemptsOf index m event next = [] := by
  unfold attemptsOf
  split
  · refine if_neg ?_
    rintro rfl
    exact other rfl
  · refine if_neg ?_
    rintro rfl
    exact other rfl
  · rfl

theorem attemptsOf_eq_nil (now : m.phaseOf index = before) (quiet : before.isLaunching = false) :
    attemptsOf index m event next = [] := by
  unfold attemptsOf
  rw [now]
  cases before with
  | launching => cases quiet
  | _ => cases event <;> rfl

/-! ## A race that is not called off -/

theorem isOn_afterClaims {claimed : List Nat} {busy : Nat}
    (on : m.flags.isStopped m.flight.abort = false) :
    (afterClaims claimed busy : CallPhase D).IsOn m := by
  cases claimed with
  | nil => cases busy <;> exact trivial
  | cons first rest => exact on

theorem CallMove.remains_on (move : CallMove m index problem event before effect after)
    (on : before.IsOn m) : after.IsOn effect := by
  cases move with
  | begins | beginsAtOnce => exact Flags.isStopped_fresh _
  | claimsOver => exact isOn_afterClaims on
  | registers => exact (Flags.isStopped_freshMany ..).trans on
  | calledOff stopped => exact absurd stopped (ne_true_of_eq_false on)
  | waited | expires | passesOver | claims | accepted | declined | undecided => exact on
  | handsBack => exact on
  | _ => trivial

theorem Balanced.remains_on (balanced : Balanced m left) (move : Move m event next)
    (calm : event ≠ .abort) (on : (m.phaseOf index).IsOn m) : (next.phaseOf index).IsOn next := by
  by_cases own : event.party? = some (.call index)
  · obtain ⟨problem, before, effect, after, there, own, rfl⟩ := move.exists_callMove own
    rw [phaseOf_eq there] at on
    rw [phaseOf_setCall_self own.calls_eq there]
    exact own.remains_on on
  · rw [move.phaseOf_eq own]
    refine on.mono (balanced.calm move calm) fun flying => move.abort_eq ?_
    exact balanced.racing_iff.mpr ⟨index, inFlight_iff.mpr flying⟩

/-! ## What a call tries to launch -/

theorem launches_afterClaims (busy : Nat) :
    (afterClaims kept busy : CallPhase D).Launches off kept [] := by
  cases kept with
  | nil => cases busy <;> rfl
  | cons first rest => rfl

/-- A move of a call keeps what its phase says of its launches. -/
theorem CallMove.launches_kept (move : CallMove m index problem event before effect after)
    (there : m.calls[index]? = some ⟨problem, before⟩)
    (account : before.Accounts m.slots.length asked kept passed)
    (launches : before.Launches off kept tried) (on : ¬ off → before.IsOn m) :
    after.Launches off (kept ++ before.keeps after)
      (tried ++ (attemptsOf index m event next).map (·.slot)) := by
  have now := phaseOf_eq there
  cases move with
  | @claimsOver _ claimed busy =>
    obtain ⟨-, -, rfl, -⟩ := account
    obtain rfl := launches
    rw [attemptsOf_eq_nil now rfl, keeps_afterClaims, List.append_nil]
    exact launches_afterClaims busy
  | goesAhead =>
    obtain ⟨-, rfl, -⟩ := account
    obtain rfl := launches
    rw [attemptsOf_eq_nil now rfl]
    simp [CallPhase.keeps, CallPhase.Launches]
  | calledOff stopped =>
    rw [attemptsOf_eq_nil now rfl]
    refine ⟨?_, (List.append_nil _).trans launches⟩
    refine Classical.byContradiction fun calm => ?_
    exact absurd stopped (ne_true_of_eq_false (on calm))
  | launches | notStarted =>
    obtain ⟨split, count⟩ := launches
    simp only [attemptsOf, now, if_true, CallPhase.keeps, List.append_nil, List.map_singleton]
    exact ⟨by rw [List.append_assoc]; exact split, count⟩
  | launched =>
    obtain ⟨split, count⟩ := launches
    have quiet : attemptsOf index m (.call index) next = [] := by simp only [attemptsOf, now]
    rw [quiet]
    simp only [CallPhase.keeps, List.map_nil, List.append_nil] at split ⊢
    exact ⟨split, count⟩
  | collects looked =>
    obtain ⟨all, count⟩ := launches
    rw [attemptsOf_eq_nil now rfl]
    simp only [CallPhase.keeps, List.map_nil, List.append_nil]
    exact ⟨all, (Collector.launched_of_goesOn looked).trans count⟩
  | loses | decides =>
    rw [attemptsOf_eq_nil now rfl]
    simp only [CallPhase.keeps, List.map_nil, List.append_nil]
    exact launches.1
  | @signals outcome =>
    rw [attemptsOf_eq_nil now rfl]
    simp only [CallPhase.keeps, List.map_nil, List.append_nil]
    cases outcome with
    | aborted => exact .inl launches
    | _ => exact launches
  | handedBack =>
    rw [attemptsOf_eq_nil now rfl]
    simp only [CallPhase.keeps, List.map_nil, List.append_nil]
    exact .inr launches
  | _ =>
    rw [attemptsOf_eq_nil now rfl, List.map_nil, List.append_nil]
    simp only [CallPhase.keeps, List.append_nil]
    exact launches

/-! ## The threads of a race -/

theorem filterMap_modify {α β : Type} {entries : List α} {index : Nat} {f : α → Option β}
    {change : α → α} (same : ∀ entry, f (change entry) = f entry) :
    (entries.modify index change).filterMap f = entries.filterMap f := by
  induction entries generalizing index with
  | nil => cases index <;> rfl
  | cons first rest ih =>
    cases index with
    | zero => simp only [List.modify_zero_cons, List.filterMap_cons, same]
    | succ index => simp only [List.modify_succ_cons, List.filterMap_cons, ih]

theorem mem_crew {slot : Nat} :
    slot ∈ m.crew index ↔ ∃ thread ∈ m.threads, thread.call = index ∧ thread.slot = slot := by
  simp only [crew, List.mem_filterMap, Option.ite_none_right_eq_some, Option.some.injEq]

theorem crew_addThread (thread : Thread D) :
    (m.addThread thread).crew index =
      m.crew index ++ if thread.call = index then [thread.slot] else [] := by
  simp only [crew, addThread, List.filterMap_append]
  by_cases mine : thread.call = index <;> simp [mine]

/-- The threads of a race are those that its attempts started. -/
theorem Move.crew_eq (move : Move m event next) :
    next.crew index = m.crew index ++ Attempt.crew (attemptsOf index m event next) := by
  cases move with
  | arrives => exact (List.append_nil _).symm
  | @ofCall mover problem _ before effect after there move =>
    have now := Machine.phaseOf_eq there
    change effect.crew index = _
    by_cases same : mover = index
    · subst same
      cases move with
      | launches =>
        rw [crew_addThread, if_pos rfl]
        simp only [attemptsOf, now, if_true]
        rfl
      | notStarted =>
        simp only [attemptsOf, now, if_true]
        exact (List.append_nil _).symm
      | launched =>
        simp only [attemptsOf, now]
        exact (List.append_nil _).symm
      | _ =>
        rw [attemptsOf_eq_nil now rfl]
        exact (List.append_nil _).symm
    · have other : event.party? ≠ some (.call index) := by
        rw [move.party_eq]
        exact fun mine => same (Party.call.inj (Option.some.inj mine))
      rw [attemptsOf_other other]
      rcases move.threads_cases with still | ⟨slot, token, _, _, _, _, _, -, rfl⟩
      · simp only [crew, still]
        exact (List.append_nil _).symm
      · rw [crew_addThread, if_neg same]
        rfl
  | @ofThread mover _ _ effect after there housed move =>
    rw [attemptsOf_other (by rintro ⟨⟩)]
    simp only [crew, setThread, move.threads_eq]
    refine Eq.trans ?_ (List.append_nil _).symm
    exact filterMap_modify fun _ => rfl
  | aborts =>
    rw [attemptsOf_other (by rintro ⟨⟩)]
    simp only [crew, threads_abort]
    exact (List.append_nil _).symm

/-! ## When everybody failed -/

theorem lost_afterClaims (claimed : List Nat) (busy : Nat) :
    (afterClaims claimed busy : CallPhase D).isLost = false := by
  cases claimed <;> cases busy <;> rfl

/-- A race is lost by a collector that counted as many failures as were launched. -/
theorem CallMove.lost_cases (move : CallMove m index problem event before effect after)
    (lost : after.isLost = true) : event = .call index ∧ before.keeps after = [] ∧
      (before.isLost = true ∨ ∃ c abort, before = .collecting c abort ∧
        c.failures = c.launched ∧ c.poll? m.look = none) := by
  cases move with
  | claimsOver =>
    rw [lost_afterClaims] at lost
    cases lost
  | loses decided =>
    refine ⟨rfl, rfl, .inr ⟨_, _, rfl, ?_⟩⟩
    rcases Collector.decided_by decided with
      ⟨unpolled, ⟨other, -⟩ | ⟨-, -, all⟩⟩ | ⟨_, _, -, -, other⟩
    · cases other
    · exact ⟨all, unpolled⟩
    · cases other
  | @decides _ _ outcome _ other =>
    cases outcome with
    | allFailed => exact absurd rfl other
    | _ => cases lost
  | signals | leaves => exact ⟨rfl, rfl, .inl lost⟩
  | _ => cases lost

theorem CallPhase.not_collecting_of_lost (lost : before.isLost = true) :
    before.isCollecting = false := by
  cases before <;> first | rfl | cases lost

end Moves

section Run

variable {start m : Machine D} {left : List Nat} {index : Nat} {events : List (Event D)}

/-- What a call tries to launch are the slots that it keeps, one after another, unless it was called
off. -/
theorem launches_of_steps {off : Prop} (balanced : Balanced start left)
    (new : start.phaseOf index = .arriving) (run : start.steps events = some m)
    (calm : ¬ off → ∀ event ∈ events, event ≠ .abort) :
    (m.phaseOf index).Launches off (start.keptBy index events)
        ((start.attemptsBy index events).map (·.slot)) ∧
      (¬ off → (m.phaseOf index).IsOn m) := by
  induction events, m, run using steps_induction with
  | nothing =>
    rw [new]
    exact ⟨rfl, fun _ => trivial⟩
  | more events m event next run step ih =>
    obtain ⟨launches, on⟩ := ih fun still other listed =>
      calm still other (List.mem_append_left [event] listed)
    have move := move_of_step step
    refine ⟨?_, fun still => (balanced.steps run).remains_on move ?_ (on still)⟩
    · simp only [keptBy, attemptsBy, record_concat run step, List.map_append] at launches ⊢
      by_cases own : event.party? = some (.call index)
      · have account := accounts_of_arriving new run
        have fresh : (start.phaseOf index).Accounts start.slots.length [] [] [] := by
          rw [new]
          exact ⟨rfl, rfl, rfl⟩
        have size := (accounts_of_steps fresh run).1
        obtain ⟨problem, before, effect, after, there, own, rfl⟩ := move.exists_callMove own
        rw [phaseOf_eq there] at launches account on
        rw [phaseOf_setCall_self own.calls_eq there, transition_own there own]
        exact own.launches_kept there (size ▸ account) launches on
      · rw [transition_other own, attemptsOf_other own, move.phaseOf_eq own, List.map_nil,
          List.append_nil, List.append_nil]
        exact launches
    · exact calm still event (List.mem_append_right events (List.mem_singleton_self event))

/-- The threads of a race are those that its attempts started. -/
theorem crew_of_steps (run : start.steps events = some m) :
    m.crew index = start.crew index ++ Attempt.crew (start.attemptsBy index events) := by
  induction events, m, run using steps_induction with
  | nothing => exact (List.append_nil _).symm
  | more events m event next run step ih =>
    rw [(move_of_step step).crew_eq, ih]
    simp only [attemptsBy, record_concat run step, Attempt.crew_append, List.append_assoc]

/-- A race that is lost was refused or has seen fail as many threads as it kept slots. -/
theorem failures_of_lost (index : Nat) {workers : List (Worker D)} {waits : Waits} {logs : Bool}
    {shared : σ} (run : (ofWorkers workers waits logs shared).steps events = some m)
    (lost : (m.phaseOf index).isLost = true) :
    events.countP (Event.isRefusal index) +
        ((ofWorkers workers waits logs shared).pollsBy index events).countP Poll.isSeen =
      ((ofWorkers workers waits logs shared).keptBy index events).length := by
  induction events, m, run using steps_induction with
  | nothing => cases lost
  | more events m event next run step ih =>
    have move := move_of_step step
    simp only [pollsBy, keptBy, record_concat run step, List.countP_append, List.length_append,
      List.countP_singleton] at ih ⊢
    by_cases own : event.party? = some (.call index)
    · have books := (books_of_steps index run).1
      have launches : (m.phaseOf index).Launches True _ _ :=
        (launches_of_steps (balanced_ofWorkers ..) rfl run fun still => absurd trivial still).1
      obtain ⟨problem, before, effect, after, there, own, rfl⟩ := move.exists_callMove own
      have now := phaseOf_eq there
      rw [phaseOf_setCall_self own.calls_eq there] at lost
      rw [transition_own there own]
      obtain ⟨rfl, keeps, former⟩ := own.lost_cases lost
      rw [keeps]
      rcases former with former | ⟨c, abort, rfl, all, unpolled⟩
      · rw [pollsOf_eq_nil (now ▸ CallPhase.not_collecting_of_lost former)]
        exact ih (now ▸ former)
      · rw [now] at books launches
        rw [pollsOf_collecting now, unpolled]
        exact books.1.symm.trans (all.trans launches.2)
    · rw [transition_other own, pollsOf_other own, isRefusal_other own]
      rw [move.phaseOf_eq own] at lost
      exact ih lost

end Run

end Machine

end MotionRace
