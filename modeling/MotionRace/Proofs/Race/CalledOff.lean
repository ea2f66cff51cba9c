import MotionRace.Proofs.Race.Flags
import MotionRace.Proofs.Race.Lost

/-!
# A race that is called off before its start

A race that was called off before it registered its workers finds its abort flag raised when it
looks: it starts no thread and hands back what it claimed. The flag stays raised and stays the one
that the race looks at, whatever others do meanwhile. A race that claimed nothing does not come as
far as to look.
-/

namespace MotionRace

variable {σ : Type} {D : Domain σ}

/-- Whether a call has the racing flag and has not registered its workers yet. -/
def CallPhase.isUnregistered : CallPhase D → Bool
  | .waiting => true
  | .claiming .. => true
  | .asking .. => true
  | .registering _ => true
  | _ => false

/-- Whether a call in a phase is sure to have started no thread. -/
def CallPhase.isUnlaunched : CallPhase D → Bool
  | .arriving => true
  | .registered .. => true
  | .handingBack _ => true
  | phase => phase.isUnregistered

/-- Whether a call that ended so can have come back without looking at a report. -/
def Ending.isEarly {α : Type} : Ending α → Bool
  | .outcome .aborted => true
  | .outcome .noneEligible => true
  | .refused (.workersBusy _) => true
  | .panicked _ => true
  | _ => false

/-- What the phase of a call says once it was called off before it registered: it is going to find
the abort flag raised, or has found it raised, or came back without looking. -/
def CallPhase.CalledOff (m : Machine D) : CallPhase D → Prop
  | .waiting => m.flags.isStopped m.flight.abort = true
  | .claiming .. => m.flags.isStopped m.flight.abort = true
  | .asking .. => m.flags.isStopped m.flight.abort = true
  | .registering _ => m.flags.isStopped m.flight.abort = true
  | .registered _ abort => m.flags.isStopped abort = true
  | .handingBack _ => True
  | .leaving ending => ending.isEarly = true
  | .ended ending => ending.isEarly = true
  | _ => False

/-- Whether a panic ended a call. -/
def Ending.isPanic {α : Type} : Ending α → Bool
  | .panicked _ => true
  | _ => false

/-- Whether a panic took a call in a phase down. -/
def CallPhase.isDown : CallPhase D → Bool
  | .leaving ending => ending.isPanic
  | .ended ending => ending.isPanic
  | _ => false

/-- How many steps a call that was called off still has to take. -/
def CallPhase.stepsLeft (size : Nat) : CallPhase D → Nat
  | .waiting => 3 * size + 6
  | .claiming next claimed _ => 3 * (size - next) + claimed.length + 5
  | .asking next claimed _ => 3 * (size - next) + claimed.length + 4
  | .registering claimed => claimed.length + 4
  | .registered claimed _ => claimed.length + 3
  | .handingBack rest => rest.length + 2
  | .leaving _ => 1
  | _ => 0

section Phases

variable {phase : CallPhase D}

theorem CallPhase.unlaunched_of_unregistered (early : phase.isUnregistered = true) :
    phase.isUnlaunched = true := by
  cases phase <;> first | rfl | cases early

theorem CallPhase.quiet_of_unlaunched (unlaunched : phase.isUnlaunched = true) :
    phase.isLaunching = false := by
  cases phase <;> first | rfl | cases unlaunched

theorem CallPhase.up_of_unlaunched (unlaunched : phase.isUnlaunched = true) :
    phase.isDown = false := by
  cases phase <;> first | rfl | cases unlaunched

theorem CallPhase.eq_arriving_of_unlaunched (unlaunched : phase.isUnlaunched = true)
    (grounded : phase.inFlight = false) : phase = .arriving := by
  cases phase with
  | arriving => rfl
  | ended => cases unlaunched
  | _ => cases grounded

end Phases

theorem CallPhase.calledOff_of_unregistered {m : Machine D} {phase : CallPhase D}
    (early : phase.isUnregistered = true) (stopped : m.flags.isStopped m.flight.abort = true) :
    phase.CalledOff m := by
  cases phase with
  | waiting | claiming | asking | registering => exact stopped
  | _ => cases early

/-- A call stays called off while others move. -/
theorem CallPhase.CalledOff.mono {m next : Machine D} {phase : CallPhase D}
    (off : phase.CalledOff m)
    (raised : ∀ token, m.flags.isStopped token = true → next.flags.isStopped token = true)
    (same : phase.inFlight = true → next.flight.abort = m.flight.abort) :
    phase.CalledOff next := by
  cases phase with
  | waiting | claiming | asking | registering =>
    change next.flags.isStopped next.flight.abort = true
    rw [same rfl]
    exact raised _ off
  | registered claimed abort => exact raised _ off
  | _ => exact off

theorem CallPhase.CalledOff.begun {m : Machine D} {phase : CallPhase D}
    (off : phase.CalledOff m) : phase.begun = true := by
  cases phase with
  | leaving ending | ended ending =>
    cases ending with
    | refused error => cases error <;> first | rfl | cases off
    | _ => rfl
  | arriving => exact off.elim
  | _ => rfl

theorem CallPhase.CalledOff.quiet {m : Machine D} {phase : CallPhase D}
    (off : phase.CalledOff m) : phase.isLaunching = false := by
  cases phase with
  | launching => exact off.elim
  | _ => rfl

namespace Machine

section Moves

variable {m next effect : Machine D} {left : List Nat} {index slot : Nat} {problem : D.Problem}
  {event : Event D} {before after phase : CallPhase D} {asked : List Nat}

theorem calledOff_afterClaims {claimed : List Nat} {busy : Nat}
    (off : m.flags.isStopped m.flight.abort = true) :
    (afterClaims claimed busy : CallPhase D).CalledOff m := by
  cases claimed with
  | nil => cases busy <;> rfl
  | cons first rest => exact off

/-- A call that was called off goes no other way. -/
theorem CallMove.remains_calledOff (move : CallMove m index problem event before effect after)
    (off : before.CalledOff m) : after.CalledOff effect := by
  cases move with
  | claimsOver => exact calledOff_afterClaims off
  | panics => rfl
  | registers => exact (Flags.isStopped_freshMany ..).trans off
  | goesAhead unstopped => exact absurd off (ne_true_of_eq_false unstopped)
  | calledOff | handedBack | handsBack => trivial
  | turnedAway | begins | beginsAtOnce | launched | launches | notStarted | collects | loses
    | decides | signals => exact off.elim
  | waited | expires | passesOver | claims | accepted | declined | undecided | leaves => exact off

theorem Balanced.remains_calledOff (balanced : Balanced m left) (move : Move m event next)
    (off : (m.phaseOf index).CalledOff m) : (next.phaseOf index).CalledOff next := by
  by_cases own : event.party? = some (.call index)
  · obtain ⟨problem, before, effect, after, there, own, rfl⟩ := move.exists_callMove own
    rw [phaseOf_eq there] at off
    rw [phaseOf_setCall_self own.calls_eq there]
    exact own.remains_calledOff off
  · rw [move.phaseOf_eq own]
    refine off.mono (fun token => move.isStopped_mono) fun flying => move.abort_eq ?_
    exact balanced.racing_iff.mpr ⟨index, inFlight_iff.mpr flying⟩

/-- The threads of a race are started while it is launching. -/
theorem Move.launching_of_thread (move : Move m event next) {thread : Thread D}
    (there : thread ∈ next.threads) :
    (∃ former ∈ m.threads, former.call = thread.call) ∨
      (m.phaseOf thread.call).isLaunching = true := by
  cases move with
  | arrives => exact .inl ⟨thread, there, rfl⟩
  | @ofCall index _ _ _ effect _ placed move =>
    change thread ∈ effect.threads at there
    rcases move.threads_cases with same | ⟨_, _, _, _, _, _, _, rfl, rfl⟩
    · exact .inl ⟨thread, same ▸ there, rfl⟩
    · rcases List.mem_append.mp there with there | there
      · exact .inl ⟨thread, there, rfl⟩
      · obtain rfl := List.mem_singleton.mp there
        exact .inr (congrArg CallPhase.isLaunching (Machine.phaseOf_eq placed))
  | @ofThread index former _ effect later placed housed move =>
    simp only [setThread, move.threads_eq] at there
    obtain ⟨position, there⟩ := List.getElem?_of_mem there
    rw [List.getElem?_modify] at there
    obtain ⟨former, placed, rfl⟩ := Option.map_eq_some_iff.mp there
    refine .inl ⟨former, List.mem_of_getElem? placed, ?_⟩
    split <;> rfl
  | aborts =>
    rw [threads_abort] at there
    exact .inl ⟨thread, there, rfl⟩

theorem Move.threadless (move : Move m event next) (quiet : (m.phaseOf index).isLaunching = false)
    (threadless : ∀ thread ∈ m.threads, thread.call ≠ index) :
    ∀ thread ∈ next.threads, thread.call ≠ index := by
  rintro thread there rfl
  rcases move.launching_of_thread there with ⟨former, there, same⟩ | launching
  · exact threadless former there same
  · exact absurd launching (ne_true_of_eq_false quiet)

/-! ## What became of the slots that a call asked -/

/-- The slots that a call asked and that are marked are in its hands, until it launches them. -/
theorem CallMove.settled (move : CallMove m index problem event before effect after)
    (quiet : before.isLaunching = false) (up : after.isDown = false)
    (settled : ∀ slot ∈ asked, m.isBusy slot = true → slot ∈ before.held) :
    ∀ slot ∈ asked ++ before.asks after, effect.isBusy slot = true → slot ∈ after.held := by
  intro slot asks busy
  cases move with
  | @claims next claimed =>
    by_cases same : next = slot
    · exact List.mem_append_right _ (List.mem_singleton.mpr same.symm)
    · rw [isBusy_setBusy, if_neg same] at busy
      rcases List.mem_append.mp asks with asks | asks
      · exact List.mem_append_left _ (settled slot asks busy)
      · exact absurd (List.mem_singleton.mp asks).symm same
  | @declined next claimed =>
    rw [isBusy_setBusy] at busy
    split at busy
    · rw [Bool.and_false] at busy
      cases busy
    · next apart =>
      simp only [CallPhase.asks, List.append_nil] at asks
      rcases List.mem_append.mp (settled slot asks busy) with held | held
      · exact held
      · exact absurd (List.mem_singleton.mp held).symm apart
  | @handsBack first rest =>
    rw [isBusy_setBusy] at busy
    split at busy
    · rw [Bool.and_false] at busy
      cases busy
    · next apart =>
      simp only [CallPhase.asks, List.append_nil] at asks
      exact (List.mem_cons.mp (settled slot asks busy)).resolve_left fun same => apart same.symm
  | claimsOver =>
    rw [asks_afterClaims, List.append_nil] at asks
    rw [held_afterClaims]
    exact settled slot asks busy
  | registers =>
    simp only [CallPhase.asks, List.append_nil] at asks
    simp only [CallPhase.held, map_fst_zip_newTokens]
    exact settled slot asks busy
  | panics => cases up
  | launched | launches | notStarted => cases quiet
  | _ =>
    simp only [CallPhase.asks, List.append_nil] at asks
    exact settled slot asks busy

theorem Balanced.settled (balanced : Balanced m left) (move : Move m event next)
    (flying : m.InFlight index) (quiet : (m.phaseOf index).isLaunching = false)
    (up : (next.phaseOf index).isDown = false)
    (settled : ∀ slot ∈ asked, m.isBusy slot = true → slot ∈ (m.phaseOf index).held) :
    ∀ slot ∈ asked ++ m.transition CallPhase.asks index event next, next.isBusy slot = true →
      slot ∈ (next.phaseOf index).held := by
  by_cases own : event.party? = some (.call index)
  · obtain ⟨problem, before, effect, after, there, own, rfl⟩ := move.exists_callMove own
    rw [phaseOf_eq there] at quiet settled
    rw [phaseOf_setCall_self own.calls_eq there] at up ⊢
    rw [transition_own there own]
    exact own.settled quiet up settled
  · intro slot asks busy
    rw [transition_other own, List.append_nil] at asks
    rw [move.phaseOf_eq own]
    refine settled slot asks (Bool.eq_true_of_not_eq_false fun free => ?_)
    have marks := balanced.asks_of_marks move flying free busy
    rw [transition_other own] at marks
    exact absurd marks List.not_mem_nil

/-! ## From the start to the abort, and from the abort on -/

theorem CallMove.unlaunched_before (move : CallMove m index problem event before effect after)
    (unlaunched : after.isUnlaunched = true) : before.isUnlaunched = true := by
  cases move <;> first | rfl | cases unlaunched

theorem Move.unlaunched_before (move : Move m event next)
    (unlaunched : (next.phaseOf index).isUnlaunched = true) :
    (m.phaseOf index).isUnlaunched = true := by
  by_cases own : event.party? = some (.call index)
  · obtain ⟨problem, before, effect, after, there, own, rfl⟩ := move.exists_callMove own
    rw [phaseOf_setCall_self own.calls_eq there] at unlaunched
    rw [Machine.phaseOf_eq there]
    exact own.unlaunched_before unlaunched
  · rwa [move.phaseOf_eq own] at unlaunched

theorem CallMove.down_of_down (move : CallMove m index problem event before effect after)
    (down : before.isDown = true) : after.isDown = true := by
  cases move with
  | leaves => exact down
  | _ => cases down

theorem Move.down_of_down (move : Move m event next) (down : (m.phaseOf index).isDown = true) :
    (next.phaseOf index).isDown = true := by
  by_cases own : event.party? = some (.call index)
  · obtain ⟨problem, before, effect, after, there, own, rfl⟩ := move.exists_callMove own
    rw [phaseOf_setCall_self own.calls_eq there]
    rw [Machine.phaseOf_eq there] at down
    exact own.down_of_down down
  · rwa [move.phaseOf_eq own]

theorem threadless_of_steps {workers : List (Worker D)} {waits : Waits} {logs : Bool} {shared : σ}
    {events : List (Event D)} (run : (ofWorkers workers waits logs shared).steps events = some m)
    (unlaunched : (m.phaseOf index).isUnlaunched = true) :
    ∀ thread ∈ m.threads, thread.call ≠ index := by
  induction events, m, run using steps_induction with
  | nothing => exact fun thread there => absurd there List.not_mem_nil
  | more events m event next run step ih =>
    have move := move_of_step step
    have former := move.unlaunched_before unlaunched
    exact move.threadless (CallPhase.quiet_of_unlaunched former) (ih former)

/-- A call that may yet start threads holds what it asked and did not give back. -/
theorem settled_of_steps {workers : List (Worker D)} {waits : Waits} {logs : Bool} {shared : σ}
    {events : List (Event D)} (run : (ofWorkers workers waits logs shared).steps events = some m)
    (unlaunched : (m.phaseOf index).isUnlaunched = true) :
    ∀ slot ∈ (ofWorkers workers waits logs shared).askedBy index events,
      m.isBusy slot = true → slot ∈ (m.phaseOf index).held := by
  induction events, m, run using steps_induction with
  | nothing => exact fun slot asks => absurd asks List.not_mem_nil
  | more events m event next run step ih =>
    have move := move_of_step step
    have former := move.unlaunched_before unlaunched
    simp only [askedBy, record_concat run step]
    by_cases flying : m.InFlight index
    · exact (balanced_of_steps run).settled move flying (CallPhase.quiet_of_unlaunched former)
        (CallPhase.up_of_unlaunched unlaunched) (ih former)
    · -- A call that is not in flight and may yet start threads has not begun.
      have new : m.phaseOf index = .arriving := by
        rw [inFlight_iff] at flying
        exact CallPhase.eq_arriving_of_unlaunched former (Bool.eq_false_iff.mpr flying)
      have first : (ofWorkers workers waits logs shared).phaseOf index = .arriving := rfl
      have nothing := accounts_of_arriving first run
      rw [new] at nothing
      intro slot asks
      rcases List.mem_append.mp asks with asks | asks
      · exact absurd asks (List.eq_nil_iff_forall_not_mem.mp nothing.1 slot)
      · rw [transition, new] at asks
        split at asks <;> exact absurd asks List.not_mem_nil

/-- What holds of a race from the moment it was called off before it registered. -/
structure Thwarted (m : Machine D) (index : Nat) (asked : List Nat) : Prop where
  off : (m.phaseOf index).CalledOff m
  threadless : ∀ thread ∈ m.threads, thread.call ≠ index
  settled : m.InFlight index → (m.phaseOf index).isDown = false →
    ∀ slot ∈ asked, m.isBusy slot = true → slot ∈ (m.phaseOf index).held

theorem Thwarted.move (thwarted : Thwarted m index asked) (balanced : Balanced m left)
    (move : Move m event next) :
    Thwarted next index (asked ++ m.transition CallPhase.asks index event next) where
  off := balanced.remains_calledOff move thwarted.off
  threadless := move.threadless thwarted.off.quiet thwarted.threadless
  settled := by
    intro flying up
    have former := (move.begun thwarted.off.begun).2 flying
    have upright : (m.phaseOf index).isDown = false := by
      refine Bool.eq_false_iff.mpr fun down => ?_
      exact absurd (move.down_of_down down) (ne_true_of_eq_false up)
    exact balanced.settled move former thwarted.off.quiet up (thwarted.settled former upright)

theorem Thwarted.steps {start : Machine D} (thwarted : Thwarted start index asked)
    (balanced : Balanced start left) {events : List (Event D)}
    (run : start.steps events = some m) :
    Thwarted m index (asked ++ start.askedBy index events) := by
  induction events, m, run using steps_induction with
  | nothing => simpa only [askedBy, record_nil, List.append_nil] using thwarted
  | more events m event next run step ih =>
    simp only [askedBy, record_concat run step, ← List.append_assoc]
    exact ih.move (balanced.steps run) (move_of_step step)

/-- When a race that was called off leaves, it has given back what it asked, unless a panic took it
down. -/
theorem Thwarted.free_of_leaving (thwarted : Thwarted m index asked) {ending : Ending D.Artifact}
    (there : m.phaseOf index = .leaving ending) (intact : ∀ panic, ending ≠ .panicked panic) :
    ∀ slot ∈ asked, m.isBusy slot = false := by
  have flying : m.InFlight index := by
    rw [inFlight_iff, there]
    rfl
  have up : (m.phaseOf index).isDown = false := by
    rw [there]
    cases ending with
    | panicked panic => exact absurd rfl (intact panic)
    | _ => rfl
  intro slot asks
  apply Bool.eq_false_iff.mpr
  intro busy
  have held := thwarted.settled flying up slot asks busy
  rw [there] at held
  exact absurd held List.not_mem_nil

/-- An abort asks nobody. -/
theorem askedBy_abort {start : Machine D} {before later : List (Event D)}
    (run : start.steps before = some m) (called : m.step .abort = some next) :
    start.askedBy index (before ++ .abort :: later) =
      start.askedBy index before ++ next.askedBy index later := by
  simp only [askedBy, record_append run, record, called, transition, Event.party?, reduceCtorEq,
    if_false, List.nil_append]

/-- An abort that finds a race in flight thwarts it, unless it has registered its workers. -/
theorem thwarted_of_abort {workers : List (Worker D)} {waits : Waits} {logs : Bool} {shared : σ}
    {events : List (Event D)} (run : (ofWorkers workers waits logs shared).steps events = some m)
    (early : (m.phaseOf index).isUnregistered = true) (abort : m.abort = (true, next)) :
    Thwarted next index ((ofWorkers workers waits logs shared).askedBy index events) := by
  have unlaunched := CallPhase.unlaunched_of_unregistered early
  have stopped := (isStopped_of_abort run abort).1
  obtain rfl : m.abort.2 = next := congrArg Prod.snd abort
  have phase : m.abort.2.phaseOf index = m.phaseOf index := Move.aborts.phaseOf_eq nofun
  constructor
  · rw [phase]
    exact CallPhase.calledOff_of_unregistered early stopped
  · rw [threads_abort]
    exact threadless_of_steps run unlaunched
  · intro _ _ slot asks busy
    rw [isBusy_abort] at busy
    rw [phase]
    exact settled_of_steps run unlaunched slot asks busy

/-! ## It comes back -/

theorem stepsLeft_afterClaims (size : Nat) (claimed : List Nat) (busy : Nat) :
    (afterClaims claimed busy : CallPhase D).stepsLeft size ≤ claimed.length + 4 := by
  cases claimed with
  | nil => cases busy <;> exact Nat.le_add_left 1 _
  | cons first rest => exact Nat.le_refl _

theorem CallMove.stepsLeft_lt (move : CallMove m index problem event before effect after)
    (off : before.CalledOff m)
    (decided : ∀ solver problem shared, (D.asks solver problem shared).1 ≠ .undecided) :
    after.stepsLeft m.slots.length < before.stepsLeft m.slots.length := by
  cases move with
  | waited | expires =>
    simp only [CallPhase.stepsLeft, List.length_nil, Nat.sub_zero]
    omega
  | @claimsOver next claimed busy =>
    refine Nat.lt_of_le_of_lt (stepsLeft_afterClaims ..) ?_
    simp only [CallPhase.stepsLeft]
    omega
  | passesOver there | accepted there | declined there =>
    have inside := (List.getElem?_eq_some_iff.mp there).1
    simp only [CallPhase.stepsLeft, List.length_append, List.length_singleton]
    omega
  | undecided _ _ unclear => exact absurd unclear (decided _ _ _)
  | claims | panics =>
    simp only [CallPhase.stepsLeft]
    omega
  | registers =>
    simp only [CallPhase.stepsLeft, List.length_zip, length_newTokens, Nat.min_self]
    omega
  | calledOff =>
    simp only [CallPhase.stepsLeft, List.length_map]
    omega
  | goesAhead unstopped => exact absurd off (ne_true_of_eq_false unstopped)
  | handedBack | handsBack | leaves =>
    simp [CallPhase.stepsLeft]
  | turnedAway | begins | beginsAtOnce | launched | launches | notStarted | collects | loses
    | decides | signals => exact off.elim

/-- A call that was called off can take a step until it has ended. -/
theorem Balanced.exists_step (balanced : Balanced m left) (off : (m.phaseOf index).CalledOff m)
    (goesOn : m.ending? index = none) :
    ∃ event next, event.party? = some (.call index) ∧ m.step event = some next := by
  have there : m.calls[index]? ≠ none := by
    intro missing
    simp only [phaseOf, missing, Option.elim_none] at off
    exact off.elim
  obtain ⟨⟨problem, phase⟩, there⟩ := Option.ne_none_iff_exists'.mp there
  rw [phaseOf_eq there] at off
  have moves : m.step (.call index) ≠ none → ∃ event next, event.party? = some (.call index) ∧
      m.step event = some next := by
    intro moves
    obtain ⟨next, step⟩ := Option.ne_none_iff_exists'.mp moves
    exact ⟨.call index, next, rfl, step⟩
  cases phase with
  | waiting =>
    exact ⟨.expire index, _, rfl, by simp only [step, expire, there]; rfl⟩
  | claiming next claimed busy =>
    apply moves
    simp only [step, stepCall, there]
    cases housed : m.slots[next]? with
    | none => simp [housed]
    | some slot => cases taken : slot.busy <;> simp [housed, taken]
  | asking next claimed busy =>
    obtain ⟨slot, housed, unlocked⟩ := balanced.unlocked_of_asking there
    apply moves
    simp [step, stepCall, there, housed, unlocked]
  | registered claimed abort =>
    have stopped : m.flags.isStopped abort = true := off
    apply moves
    simp [step, stepCall, there, stopped]
  | handingBack claimed =>
    apply moves
    cases claimed <;> simp [step, stepCall, there]
  | registering | leaving =>
    apply moves
    simp [step, stepCall, there]
  | ended ending =>
    simp [ending?, there] at goesOn
  | arriving | launching | collecting | signalling => exact off.elim

/-- A call that was called off comes back by its own steps, if workers make up their minds. -/
theorem Balanced.comes_back (balanced : Balanced m left) (off : (m.phaseOf index).CalledOff m)
    (decided : ∀ solver problem shared, (D.asks solver problem shared).1 ≠ .undecided) :
    ∃ own later ending, (∀ event ∈ own, event.party? = some (.call index)) ∧
      m.steps own = some later ∧ later.ending? index = some ending := by
  -- The induction is on the steps that the call has left; nobody else needs to move.
  induction bound : (m.phaseOf index).stepsLeft m.slots.length using Nat.strongRecOn
    generalizing m left with
  | ind count ih =>
    cases ended : m.ending? index with
    | some ending =>
      exact ⟨[], m, ending, fun _ listed => absurd listed List.not_mem_nil, rfl, ended⟩
    | none =>
      obtain ⟨event, next, own, step⟩ := balanced.exists_step off ended
      have move := move_of_step step
      have fewer : (next.phaseOf index).stepsLeft next.slots.length < count := by
        rw [← bound, move.length_slots]
        obtain ⟨problem, before, effect, after, there, own, rfl⟩ := move.exists_callMove own
        rw [phaseOf_eq there] at off ⊢
        rw [phaseOf_setCall_self own.calls_eq there]
        exact own.stepsLeft_lt off decided
      obtain ⟨rest, later, ending, owns, run, ended⟩ :=
        ih _ fewer (balanced.move move) (balanced.remains_calledOff move off) rfl
      refine ⟨event :: rest, later, ending, ?_, ?_, ended⟩
      · intro other listed
        rcases List.mem_cons.mp listed with rfl | listed
        · exact own
        · exact owns other listed
      · rw [steps_cons, step, Option.bind_some, run]

/-- A call that leaves comes back with its ending and marks nothing. -/
theorem ends_of_leaving {ending : Ending D.Artifact} (there : m.phaseOf index = .leaving ending)
    (step : m.step (.call index) = some next) :
    next.ending? index = some ending ∧ ∀ slot, next.isBusy slot = m.isBusy slot := by
  obtain ⟨problem, before, effect, after, placed, own, rfl⟩ :=
    (move_of_step step).exists_callMove rfl
  obtain rfl := (phaseOf_eq placed).symm.trans there
  cases own with
  | leaves => exact ⟨by simp [ending?, setCall, endFlight, placed], fun _ => rfl⟩

/-- How a call that was called off came back tells what it kept and what it passed over. -/
theorem ending_of_calledOff {slots : Nat} {kept passed : List Nat} {ending : Ending D.Artifact}
    (early : ending.isEarly = true) (account : ending.Accounts slots asked kept passed)
    (whole : ∀ panic, ending ≠ .panicked panic) :
    ending = if kept ≠ [] then .outcome .aborted
      else if passed ≠ [] then .refused (.workersBusy passed.length)
      else .outcome .noneEligible := by
  cases ending with
  | outcome outcome =>
    cases outcome with
    | aborted => rw [if_pos account.2]
    | noneEligible =>
      obtain ⟨-, kept, passed⟩ := account
      rw [if_neg (not_not_intro kept), if_neg (not_not_intro passed)]
    | succeeded | allFailed => cases early
  | refused error =>
    cases error with
    | alreadyRacing => cases early
    | workersBusy busy =>
      obtain ⟨-, kept, rfl, marked⟩ := account
      rw [if_neg (not_not_intro kept), if_pos (List.ne_nil_of_length_pos marked)]
  | panicked panic => exact absurd rfl (whole panic)

end Moves

/-- A race that an abort finds in flight before it registered its workers starts no thread. It comes
back as aborted if it claimed something, and else with what it found; what it asked is free again by
then, unless a worker panicked when it was asked. -/
theorem called_off_before_launch {workers : List (Worker D)} {waits : Waits} {logs : Bool}
    {shared : σ} {before after : List (Event D)} {m off later : Machine D} {index : Nat}
    (run : (ofWorkers workers waits logs shared).steps before = some m)
    (early : (m.phaseOf index).isUnregistered = true) (abort : m.abort = (true, off))
    (more : off.steps after = some later) :
    let start := ofWorkers workers waits logs shared
    let asked := start.askedBy index (before ++ .abort :: after)
    let kept := start.keptBy index (before ++ .abort :: after)
    let passed := start.passedBy index (before ++ .abort :: after)
    -- No thread of the race is ever started.
    (∀ thread ∈ later.threads, thread.call ≠ index) ∧
    -- It comes back as aborted exactly if it claimed something.
    (∀ ending, later.ending? index = some ending → (∀ panic, ending ≠ .panicked panic) →
      ending = if kept ≠ [] then .outcome .aborted
        else if passed ≠ [] then .refused (.workersBusy passed.length)
        else .outcome .noneEligible) ∧
    -- When it comes back, the slots that it claimed are free.
    (∀ ending next, later.phaseOf index = .leaving ending → (∀ panic, ending ≠ .panicked panic) →
      later.step (.call index) = some next →
      next.ending? index = some ending ∧ ∀ slot ∈ asked, next.isBusy slot = false) ∧
    -- It does come back, if workers make up their minds.
    ((∀ solver problem shared, (D.asks solver problem shared).1 ≠ .undecided) →
      ∃ own last ending, (∀ event ∈ own, event.party? = some (.call index)) ∧
        later.steps own = some last ∧ last.ending? index = some ending) := by
  intro start asked kept passed
  have called : m.step .abort = some off := by simp only [step, abort]
  have balanced := (balanced_of_steps run).move (move_of_step called)
  have thwarted := (thwarted_of_abort run early abort).steps balanced more
  have whole : start.steps (before ++ .abort :: after) = some later := by
    rw [steps_append, show start.steps before = some m from run, Option.bind_some, steps_cons,
      called, Option.bind_some, more]
  have all : asked = start.askedBy index before ++ off.askedBy index after :=
    askedBy_abort run called
  have first : start.phaseOf index = .arriving := rfl
  have account := accounts_of_arriving first whole
  refine ⟨thwarted.threadless, ?_, ?_, (balanced.steps more).comes_back thwarted.off⟩
  · intro ending ended intact
    have early := thwarted.off
    rw [phaseOf_of_ending ended] at early account
    exact ending_of_calledOff early account intact
  · intro ending next there intact last
    obtain ⟨ended, same⟩ := ends_of_leaving there last
    refine ⟨ended, fun slot asks => ?_⟩
    rw [same]
    rw [all] at asks
    exact thwarted.free_of_leaving there intact slot asks

/-- One worker that takes every problem on, and one that takes none. -/
def oneWilling : Scripted.Script Nat Nat := { acts := [[.succeed 5 0], [.ineligible]] }

/-- A call claims the willing worker. -/
def willingClaimed : List (Event oneWilling.domain) :=
  [Event.arrive (0 : Nat)] ++ List.replicate 3 (Event.call 0)

theorem called_off_between_two_questions :
    ∃ m off later, (oneWilling.coordinator { poll := 0, busy := 0 }).steps willingClaimed = some m ∧
      m.isBusy 0 = true ∧ m.abort = (true, off) ∧
      off.steps (List.replicate 8 (Event.call 0)) = some later ∧
      (∀ thread ∈ later.threads, thread.call ≠ 0) ∧
      later.ending? 0 = some (.outcome .aborted) := by
  obtain ⟨m, off, later, run, early, busy, abort, more, ending, ended, intact⟩ :
      ∃ m off later,
        (oneWilling.coordinator { poll := 0, busy := 0 }).steps willingClaimed = some m ∧
        (m.phaseOf 0).isUnregistered = true ∧ m.isBusy 0 = true ∧ m.abort = (true, off) ∧
        off.steps (List.replicate 8 (Event.call 0)) = some later ∧
        ∃ ending, later.ending? 0 = some ending ∧ ∀ panic, ending ≠ .panicked panic :=
    ⟨_, _, _, rfl, rfl, rfl, rfl, rfl, _, rfl, nofun⟩
  have kept : (oneWilling.coordinator { poll := 0, busy := 0 }).keptBy 0
      (willingClaimed ++ .abort :: List.replicate 8 (Event.call 0)) = [0] := rfl
  obtain ⟨threadless, comes, -⟩ := called_off_before_launch run early abort more
  refine ⟨m, off, later, run, busy, abort, more, threadless, ?_⟩
  rw [ended, comes ending ended intact, if_pos]
  exact fun nothing => absurd (kept.symm.trans nothing) (List.cons_ne_nil _ _)

/-- One worker that heeds no stop. -/
def onlyDeaf : Scripted.Script Nat Nat := { acts := [[.holdDeaf 7]] }

/-- A race is called off while the worker solves, and the next one waits for that worker. -/
def nextWaits : List (Event onlyDeaf.domain) :=
  [Event.arrive (0 : Nat)] ++ List.replicate 9 (Event.call 0) ++
    List.replicate 3 (Event.thread 0) ++ [Event.abort] ++ List.replicate 3 (Event.call 0) ++
    [Event.arrive (1 : Nat), Event.call 1]

/-- A race that is called off while it waits can come back as if nobody had called it off. -/
theorem exists_calledOff_not_aborted :
    ∃ m off later, (onlyDeaf.coordinator {}).steps nextWaits = some m ∧
      (m.phaseOf 1).isUnregistered = true ∧ m.abort = (true, off) ∧
      off.steps ([Event.expire 1] ++ List.replicate 3 (Event.call 1)) = some later ∧
      later.ending? 1 = some (.refused (.workersBusy 1)) :=
  ⟨_, _, _, rfl, rfl, rfl, rfl, rfl⟩

end Machine

end MotionRace
