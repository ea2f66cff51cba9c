import MotionRace.Proofs.Race.Attempts

/-!
# Races for which nobody is eligible

A race that kept no slot has nobody to launch. It comes back with the number of slots that it found
marked, or with nobody eligible if it found none marked. It leaves the coordinator as its pass found
it: there is no thread, no token and no scratch copy of the race, and the marks of the slots are as
they were, but for those that threads of earlier races have cleared since.

Main statement: `eligibility_pass`, which also says whom a race launches and whom it counts.
-/

namespace MotionRace

variable {σ : Type} {D : Domain σ}

/-- Whether a call in a phase can have kept nothing so far. -/
def CallPhase.isBare : CallPhase D → Bool
  | .arriving => true
  | .waiting => true
  | .claiming _ claimed _ => claimed.isEmpty
  | .asking _ claimed _ => claimed.isEmpty
  | .leaving _ => true
  | .ended _ => true
  | _ => false

section Phases

variable {phase : CallPhase D} {slots : Nat} {asked kept passed : List Nat}

theorem CallPhase.Accounts.bare (account : phase.Accounts slots asked [] passed) :
    phase.isBare = true := by
  cases phase with
  | claiming | asking =>
    obtain ⟨-, -, rfl, -⟩ := account
    rfl
  | registering | registered => exact absurd rfl account.2.2
  | handingBack | launching | collecting => exact absurd rfl account.2
  | signalling => exact absurd rfl account.2.1
  | _ => rfl

theorem CallPhase.quiet_of_bare (bare : phase.isBare = true) : phase.isLaunching = false := by
  cases phase <;> first | rfl | cases bare

theorem CallPhase.held_of_bare (bare : phase.isBare = true) : phase.held = phase.inQuestion := by
  cases phase with
  | claiming _ claimed | asking _ claimed =>
    obtain rfl := List.isEmpty_iff.mp bare
    rfl
  | arriving | waiting | leaving | ended => rfl
  | _ => cases bare

/-- The slot that a call holds while it has kept nothing is one that it asked. -/
theorem CallPhase.Accounts.asked_of_held (account : phase.Accounts slots asked [] passed)
    {slot : Nat} (held : slot ∈ phase.held) : slot ∈ asked := by
  rw [held_of_bare account.bare] at held
  cases phase with
  | asking =>
    obtain ⟨⟨former, rfl, -⟩, -⟩ := account
    exact List.mem_append_right _ held
  | _ => exact absurd held List.not_mem_nil

theorem Dealt.apart (dealt : Dealt slots asked kept passed) : (asked ++ passed).Nodup :=
  dealt.each.nodup_iff.mpr List.nodup_range

/-- No slot is asked twice or passed over twice, and none is both asked and passed over. -/
theorem CallPhase.Accounts.apart (account : phase.Accounts slots asked kept passed)
    (up : phase.isDown = false) : (asked ++ passed).Nodup := by
  cases phase with
  | arriving | waiting =>
    obtain ⟨rfl, -, rfl⟩ := account
    exact List.nodup_nil
  | asking =>
    obtain ⟨⟨former, rfl, dealt⟩, -⟩ := account
    exact dealt.decline.apart
  | leaving ending | ended ending =>
    cases ending with
    | outcome outcome => cases outcome <;> exact account.1.apart
    | refused error =>
      cases error with
      | alreadyRacing =>
        obtain ⟨rfl, -, rfl⟩ := account
        exact List.nodup_nil
      | workersBusy busy => exact account.1.apart
    | panicked => cases up
  | _ => exact account.1.apart

/-- How a call comes back tells whether it kept a slot and how many it found marked. -/
theorem Ending.Accounts.refusals {α : Type} {ending : Ending α}
    (account : ending.Accounts slots asked kept passed) (flown : ending.hadFlight = true)
    (up : ending.isPanic = false) :
    (∀ busy, ending = .refused (.workersBusy busy) ↔ kept = [] ∧ passed.length = busy ∧ 0 < busy) ∧
      (ending = .outcome .noneEligible ↔ kept = [] ∧ passed = []) := by
  cases ending with
  | outcome outcome =>
    cases outcome with
    | noneEligible =>
      obtain ⟨-, rfl, rfl⟩ := account
      simp
    | _ =>
      obtain ⟨-, kept_ne_nil⟩ := account
      simp [kept_ne_nil]
  | refused error =>
    cases error with
    | alreadyRacing => cases flown
    | workersBusy busy =>
      obtain ⟨-, rfl, rfl, marked⟩ := account
      have more : passed ≠ [] := List.ne_nil_of_length_pos marked
      simp only [Ending.refused.injEq, RaceError.workersBusy.injEq, true_and, reduceCtorEq, more,
        iff_self_and, and_true]
      rintro busy rfl
      exact marked
  | panicked => cases up

/-- A call that kept nothing is on its way back when its pass is over. -/
theorem CallPhase.Accounts.home (account : phase.Accounts slots asked [] passed)
    (begun : phase.begun = true) (finished : phase.isPassing = false) :
    ∃ ending, phase = .leaving ending ∨ phase = .ended ending := by
  have bare := account.bare
  cases phase with
  | leaving ending => exact ⟨ending, .inl rfl⟩
  | ended ending => exact ⟨ending, .inr rfl⟩
  | arriving => cases begun
  | waiting | claiming | asking => cases finished
  | _ => cases bare

end Phases

namespace Machine

/-- The slot that a thread marks as free. -/
def freedOf (m : Machine D) (event : Event D) (_ : Machine D) : List Nat :=
  match event with
  | .thread runner =>
    match m.threads[runner]? with
    | some { slot, phase := .unlocked _, .. } => [slot]
    | _ => []
  | _ => []

/-- The race for which a scratch copy of a world is taken. -/
def copiedFor (m : Machine D) (event : Event D) (_ : Machine D) : List Nat :=
  match event with
  | .thread runner =>
    match m.threads[runner]? with
    | some { call, phase := .running .copying, .. } => [call]
    | _ => []
  | _ => []

/-- What is so of a race that has kept nothing so far, given the slots that it asked and passed over
and those that threads have freed meanwhile. -/
structure Bare (m : Machine D) (index : Nat) (asked passed freed : List Nat) : Prop where
  unmanned : ∀ thread ∈ m.threads, thread.call ≠ index
  unregistered : m.InFlight index → m.flight.bridge.tokens = []
  given : m.InFlight index → ∀ slot ∈ asked, m.isBusy slot = true →
    slot ∈ (m.phaseOf index).inQuestion
  found : m.InFlight index → ∀ slot ∈ passed, (m.isBusy slot = true ↔ slot ∉ freed)
  cleared : m.InFlight index → ∀ slot ∈ freed, slot ∉ asked → m.isBusy slot = false

section Moves

variable {m next effect : Machine D} {left : List Nat} {index slot : Nat} {problem : D.Problem}
  {event : Event D} {before after : CallPhase D} {asked passed freed : List Nat}

theorem free_of_freedOf (move : Move m event next) (frees : slot ∈ m.freedOf event next) :
    next.isBusy slot = false := by
  unfold freedOf at frees
  split at frees
  next runner =>
    split at frees
    next there =>
      obtain rfl := List.mem_singleton.mp frees
      obtain ⟨housed, effect, later, -, own, rfl, -⟩ := move.exists_threadMove there
      cases own with
      | frees =>
        show (m.setBusy slot false).isBusy slot = false
        rw [isBusy_setBusy, if_pos rfl, Bool.and_false]
    next => exact absurd frees List.not_mem_nil
  next => exact absurd frees List.not_mem_nil

/-- A thread that takes the mark of a slot away is recorded. -/
theorem ThreadMove.freedOf {runner : Nat} {thread : Thread D} {housed : Slot D}
    {later : ThreadPhase D} (there : m.threads[runner]? = some thread)
    (move : ThreadMove m runner thread housed thread.phase effect later)
    (busy : m.isBusy slot = true) (free : effect.isBusy slot = false) :
    slot ∈ m.freedOf (.thread runner) next := by
  obtain ⟨call, place, problem, token, phase⟩ := thread
  cases move with
  | frees =>
    simp only [Machine.freedOf, there]
    refine List.mem_singleton.mpr (Classical.byContradiction fun apart => ?_)
    rw [isBusy_setBusy, if_neg (Ne.symm apart)] at free
    exact absurd busy (ne_true_of_eq_false free)
  | locks | finishes | dies =>
    rw [isBusy_setLocked] at free
    exact absurd busy (ne_true_of_eq_false free)
  | runs =>
    rw [isBusy_setWorker] at free
    exact absurd busy (ne_true_of_eq_false free)
  | logs | reports => exact absurd busy (ne_true_of_eq_false free)

/-- A mark that is taken away is taken away by the call that holds the slot, or a thread is recorded
for it. -/
theorem Balanced.held_or_freed (balanced : Balanced m left) (move : Move m event next)
    (busy : m.isBusy slot = true) (free : next.isBusy slot = false) :
    (∃ caller, m.Holds (.call caller) slot) ∨ slot ∈ m.freedOf event next := by
  obtain ⟨party, moved, holds⟩ := balanced.holds_of_frees move busy free
  cases party with
  | call caller => exact .inl ⟨caller, holds⟩
  | thread runner =>
    right
    obtain ⟨thread, there, -, -⟩ := holds
    cases move with
    | ofCall _ move => cases move.party_eq.symm.trans moved
    | @ofThread mover thread _ effect after there _ move =>
      exact move.freedOf there busy free
    | _ => cases moved

section Step

variable {size : Nat} (bare : m.Bare index asked passed freed) (balanced : Balanced m left)
  (moved : Move m event next) (begun : (m.phaseOf index).begun = true)
  (account : (m.phaseOf index).Accounts size asked [] passed)
  (later : (next.phaseOf index).Accounts size
    (asked ++ m.transition CallPhase.asks index event next) []
    (passed ++ m.transition CallPhase.passes index event next))
  (up : (next.phaseOf index).isDown = false)

include bare balanced moved begun

/-- A slot that a thread has freed is free until the race asks it. -/
theorem Bare.stays_cleared (flying : next.InFlight index) :
    ∀ slot ∈ freed ++ m.freedOf event next,
      slot ∉ asked ++ m.transition CallPhase.asks index event next → next.isBusy slot = false := by
  intro slot frees unasked
  rw [List.mem_append, not_or] at unasked
  rcases List.mem_append.mp frees with before | now
  · have former := (moved.begun begun).2 flying
    have free := bare.cleared former slot before unasked.1
    refine Bool.eq_false_iff.mpr fun busy => ?_
    exact unasked.2 (balanced.asks_of_marks moved former free busy)
  · exact free_of_freedOf moved now

include account

/-- No token is registered for a race that has kept nothing. -/
theorem Bare.stays_unregistered (flying : next.InFlight index) :
    next.flight.bridge.tokens = [] := by
  have former := (moved.begun begun).2 flying
  cases moved.flightStep with
  | begins _ _ idle =>
    exact absurd (balanced.racing_iff.mpr ⟨index, former⟩) (ne_true_of_eq_false idle)
  | registers mover claimed now =>
    obtain rfl : mover = index :=
      balanced.flight_unique (inFlight_iff.mpr (by rw [now]; rfl)) former
    rw [now] at account
    exact absurd rfl account.2.2
  | stays bridge =>
    rw [bridge]
    exact bare.unregistered former

/-- While the race is in flight, a mark of a slot that it did not ask stays until a thread is done
with the slot. -/
theorem Bare.stays_marked (flying : next.InFlight index) (unasked : slot ∉ asked)
    (busy : m.isBusy slot = true) (unfreed : slot ∉ m.freedOf event next) :
    next.isBusy slot = true := by
  refine Bool.eq_true_of_not_eq_false fun free => ?_
  rcases balanced.held_or_freed moved busy free with ⟨caller, holds⟩ | freed
  · obtain rfl := balanced.flight_unique (inFlight_of_holds holds) ((moved.begun begun).2 flying)
    obtain ⟨call, there, held⟩ := holds
    rw [phaseOf_eq there] at account
    exact unasked (account.asked_of_held held)
  · exact unfreed freed

include later up

/-- A slot that was found marked stays so until a thread is done with it. -/
theorem Bare.stays_found (flying : next.InFlight index) :
    ∀ slot ∈ passed ++ m.transition CallPhase.passes index event next,
      (next.isBusy slot = true ↔ slot ∉ freed ++ m.freedOf event next) := by
  intro slot passes
  have unasked : slot ∉ asked ++ m.transition CallPhase.asks index event next := by
    intro asks
    obtain ⟨-, -, apart⟩ := List.nodup_append.mp (later.apart up)
    exact apart slot asks slot passes rfl
  constructor
  · intro busy frees
    have free := bare.stays_cleared balanced moved begun flying slot frees unasked
    exact absurd busy (ne_true_of_eq_false free)
  · intro unfreed
    rw [List.mem_append, not_or] at unasked unfreed
    have busy : m.isBusy slot = true := by
      rcases List.mem_append.mp passes with before | now
      · exact (bare.found ((moved.begun begun).2 flying) slot before).mpr unfreed.1
      · obtain ⟨_, _, _, _, -, own, passes⟩ := moved.of_transition now
        exact (own.busy_of_passes passes).1
    exact bare.stays_marked balanced moved begun account flying unasked.1 busy unfreed.2

/-- A race that has kept nothing so far goes on so. -/
theorem Bare.move : next.Bare index (asked ++ m.transition CallPhase.asks index event next)
    (passed ++ m.transition CallPhase.passes index event next)
    (freed ++ m.freedOf event next) where
  unmanned := moved.threadless (CallPhase.quiet_of_bare account.bare) bare.unmanned
  unregistered := bare.stays_unregistered balanced moved begun account
  given := by
    intro flying slot asks busy
    have former := (moved.begun begun).2 flying
    have given := bare.given former
    have quiet := CallPhase.quiet_of_bare account.bare
    -- While nothing is kept, the slot in question is all that the call holds.
    rw [← CallPhase.held_of_bare account.bare] at given
    rw [← CallPhase.held_of_bare later.bare]
    exact balanced.settled moved former quiet up given slot asks busy
  found := bare.stays_found balanced moved begun account later up
  cleared := bare.stays_cleared balanced moved begun

end Step

/-- A race takes a scratch copy by one of its threads. -/
theorem exists_thread_of_copied (copied : index ∈ m.copiedFor event next) :
    ∃ thread ∈ m.threads, thread.call = index := by
  unfold copiedFor at copied
  split at copied
  next runner =>
    split at copied
    next there =>
      obtain rfl := List.mem_singleton.mp copied
      exact ⟨_, List.mem_of_getElem? there, rfl⟩
    next => exact absurd copied List.not_mem_nil
  next => exact absurd copied List.not_mem_nil

/-- The step by which a call that had the racing flag comes back gives the flag back and nothing
else. -/
theorem Move.returns {ending : Ending D.Artifact} (move : Move m event next)
    (begun : (m.phaseOf index).begun = true) (goesOn : m.ending? index = none)
    (ended : next.ending? index = some ending) :
    m.phaseOf index = .leaving ending ∧ next.isRacing = false ∧
      next.flight.bridge = m.flight.bridge ∧ ∀ slot, next.isBusy slot = m.isBusy slot := by
  have last := phaseOf_of_ending ended
  by_cases own : event.party? = some (.call index)
  · obtain ⟨problem, before, effect, after, there, own, rfl⟩ := move.exists_callMove own
    rw [phaseOf_setCall_self own.calls_eq there] at last
    rw [Machine.phaseOf_eq there] at begun ⊢
    cases own with
    | leaves =>
      obtain rfl := CallPhase.ended.inj last
      exact ⟨rfl, rfl, rfl, fun _ => rfl⟩
    | turnedAway => cases begun
    | @claimsOver _ claimed busy => cases claimed <;> cases busy <;> cases last
    | _ => cases last
  · rw [move.phaseOf_eq own] at last
    exact absurd (goesOn.symm.trans (ending_of_phaseOf last)) nofun

end Moves

section Run

variable {start m : Machine D} {left : List Nat} {index : Nat} {events : List (Event D)}

/-- A race that has kept nothing has left the coordinator as its pass found it. -/
theorem Bare.steps (bare : start.Bare index [] [] []) (balanced : Balanced start left)
    (begun : (start.phaseOf index).begun = true)
    (account : (start.phaseOf index).Accounts start.slots.length [] [] [])
    (run : start.steps events = some m) (keptNobody : start.keptBy index events = [])
    (up : (m.phaseOf index).isDown = false) :
    m.Bare index (start.askedBy index events) (start.passedBy index events)
        (start.record freedOf events) ∧
      index ∉ start.record copiedFor events := by
  induction events, m, run using steps_induction with
  | nothing => exact ⟨bare, List.not_mem_nil⟩
  | more events m event next run step ih =>
    have move := move_of_step step
    have account' := (accounts_of_steps account run).2
    have later := (accounts_of_steps account (steps_concat run step)).2
    have former : start.keptBy index events = [] := by
      rw [keptBy, record_concat run step] at keptNobody
      exact (List.append_eq_nil_iff.mp keptNobody).1
    have upright : (m.phaseOf index).isDown = false := by
      refine Bool.eq_false_iff.mpr fun down => ?_
      exact absurd (move.down_of_down down) (ne_true_of_eq_false up)
    obtain ⟨bare, uncopied⟩ := ih former upright
    rw [former] at account'
    rw [keptNobody] at later
    simp only [askedBy, passedBy, record_concat run step] at bare account' later ⊢
    refine ⟨bare.move (balanced.steps run) move (begun_of_steps begun run) account' later up, ?_⟩
    intro copied
    rcases List.mem_append.mp copied with copied | copied
    · exact uncopied copied
    · obtain ⟨thread, there, mine⟩ := exists_thread_of_copied copied
      exact bare.unmanned thread there mine

/-- What a race that keeps nothing leaves behind, from the moment it begins. -/
theorem bare_of_race {workers : List (Worker D)} {waits : Waits} {logs : Bool} {shared : σ}
    {before during : List (Event D)} {later : Machine D}
    (run : (ofWorkers workers waits logs shared).steps before = some m)
    (idle : m.isRacing = false) (new : m.phaseOf index = .arriving)
    (more : m.steps (.call index :: during) = some later)
    (keptNobody : m.keptBy index (.call index :: during) = [])
    (up : (later.phaseOf index).isDown = false) :
    later.Bare index (m.askedBy index (.call index :: during))
        (m.passedBy index (.call index :: during)) (m.record freedOf (.call index :: during)) ∧
      index ∉ m.record copiedFor (.call index :: during) := by
  obtain ⟨mid, step, rest⟩ := Option.bind_eq_some_iff.mp more
  obtain ⟨problem, phase, there, first, rfl⟩ := begins_of_idle new idle step
  have now : (m.beginFlight.setCall index phase).phaseOf index = phase :=
    phaseOf_setCall_self rfl there phase
  have unmanned : ∀ thread ∈ m.threads, thread.call ≠ index :=
    threadless_of_steps run (by rw [new]; rfl)
  have bare : (m.beginFlight.setCall index phase).Bare index [] [] [] :=
    ⟨unmanned, fun _ => rfl, fun _ _ asks => absurd asks List.not_mem_nil,
      fun _ _ passes => absurd passes List.not_mem_nil,
      fun _ _ frees => absurd frees List.not_mem_nil⟩
  have opening {yield : (before after : CallPhase D) → List Nat}
      (silent : ∀ after, yield .arriving after = []) :
      m.record (transition yield index) (.call index :: during) =
        (m.beginFlight.setCall index phase).record (transition yield index) during := by
    simp only [record, step, transition, Event.party?, if_true, new, silent, List.nil_append]
  rw [keptBy, opening fun _ => rfl] at keptNobody
  simp only [askedBy, passedBy]
  rw [opening fun _ => rfl, opening fun _ => rfl]
  simp only [record, step, freedOf, copiedFor, List.nil_append]
  refine bare.steps ((balanced_of_steps run).move (move_of_step step)) ?_ ?_ rest keptNobody up
  · rw [now]
    rcases first with rfl | rfl <;> rfl
  · rw [now]
    rcases first with rfl | rfl
    · exact ⟨rfl, rfl, rfl⟩
    · exact ⟨Dealt.nothing, Nat.zero_le _, rfl, rfl⟩

/-- A call comes to the end of its pass by its own steps, and comes back if it has kept nothing, if
the workers answer. -/
theorem Balanced.comes_home (balanced : Balanced m left) (new : start.phaseOf index = .arriving)
    (run : start.steps events = some m) (begun : (m.phaseOf index).begun = true)
    (decided : ∀ solver problem shared, (D.asks solver problem shared).1 ≠ .undecided) :
    ∃ own last, (∀ event ∈ own, event.party? = some (.call index)) ∧ m.steps own = some last ∧
      (last.phaseOf index).isPassing = false ∧
      (start.keptBy index (events ++ own) = [] → ∃ ending, last.ending? index = some ending) := by
  obtain ⟨own, last, owns, goesOn, finished⟩ : ∃ own last,
      (∀ event ∈ own, event.party? = some (.call index)) ∧ m.steps own = some last ∧
        (last.phaseOf index).isPassing = false := balanced.comes_over decided
  have whole : start.steps (events ++ own) = some last := by
    rw [steps_append, run]
    exact goesOn
  by_cases keptNobody : start.keptBy index (events ++ own) = []
  · have account := accounts_of_arriving new whole
    rw [keptNobody] at account
    obtain ⟨ending, home⟩ := account.home (begun_of_steps begun goesOn) finished
    obtain ⟨own, last, owns, goesOn, ended⟩ := exists_steps_home owns goesOn home
    refine ⟨own, last, owns, goesOn, ?_, fun _ => ⟨ending, ended⟩⟩
    rw [phaseOf_of_ending ended]
    rfl
  · exact ⟨own, last, owns, goesOn, finished, fun nothing => absurd nothing keptNobody⟩

end Run

/-- Whether a coordinator is as the pass of a race found it: no race is in flight and no token is
registered, the slots that were found idle are free, and those that were found marked are marked,
but for those that threads have freed since. -/
structure AsFound (m : Machine D) (seen : List Sighting) (freed : List Nat) : Prop where
  idle : m.isRacing = false
  unregistered : m.flight.bridge.tokens = []
  marks : ∀ sighting ∈ seen,
    (m.isBusy sighting.slot = true ↔ sighting.busy = true ∧ sighting.slot ∉ freed)

section Race

variable {workers : List (Worker D)} {waits : Waits} {logs : Bool} {shared : σ}
  {before during : List (Event D)} {m later : Machine D} {index : Nat}
  (run : (ofWorkers workers waits logs shared).steps before = some m)
  (idle : m.isRacing = false) (new : m.phaseOf index = .arriving)
  (more : m.steps (.call index :: during) = some later)
  (answered : ∀ reply ∈ m.repliesBy index (.call index :: during), reply.answer.isPanic = false)

include run idle new more answered

/-- What a race says of itself, in terms of what its pass sees and hears. -/
theorem race_accounts :
    (later.phaseOf index).begun = true ∧ (later.phaseOf index).isDown = false ∧
      (later.phaseOf index).Accounts workers.length
        (Sighting.idle (m.sightingsBy index (.call index :: during)))
        (Reply.willing (m.repliesBy index (.call index :: during)))
        (Sighting.marked (m.sightingsBy index (.call index :: during))) := by
  have account := accounts_of_arriving new more
  obtain ⟨asked, passed, kept⟩ := pass_of_steps index more
  rw [asked, passed, kept, length_of_steps run] at account
  have begun := ((balanced_of_steps run).next_pass idle new more).1
  exact ⟨begun, up_of_steps new more answered, account⟩

/-- A pass asks the worker of each slot that it finds idle, and no other. -/
theorem asks_the_idle :
    let seen := m.sightingsBy index (.call index :: during)
    let replies := m.repliesBy index (.call index :: during)
    Reply.finals replies ++ (later.phaseOf index).inQuestion = Sighting.idle seen ∧
      (∀ reply ∈ replies, reply.slot ∈ Sighting.idle seen ∧ reply.slot ∉ Sighting.marked seen) ∧
      (Reply.willing replies).Sublist (Sighting.idle seen) := by
  intro seen replies
  obtain ⟨-, up, account⟩ := race_accounts run idle new more answered
  obtain ⟨finals, heard⟩ := finals_of_steps new more
  rw [(pass_of_steps index more).1] at finals heard
  refine ⟨finals, fun reply listed => ⟨heard reply listed, fun marked => ?_⟩, ?_⟩
  · obtain ⟨-, -, apart⟩ := List.nodup_append.mp (account.apart up)
    exact apart _ (heard reply listed) _ marked rfl
  · rw [← finals]
    exact (Reply.willing_sublist_finals replies).trans (List.sublist_append_left ..)

/-- A race launches the workers that take its problem on, and no other. -/
theorem launches_the_willing :
    let willing := Reply.willing (m.repliesBy index (.call index :: during))
    let attempts := m.attemptsBy index (.call index :: during)
    attempts.map (·.slot) <+: willing ∧ later.crew index = Attempt.crew attempts ∧
      ((later.phaseOf index).isPreparing = false → (∀ event ∈ during, event ≠ .abort) →
        attempts.map (·.slot) = willing) := by
  intro willing attempts
  obtain ⟨begun, up, account⟩ := race_accounts run idle new more answered
  have calm (on : ¬ ∃ event ∈ during, event = .abort) :
      ∀ event ∈ Event.call index :: during, event ≠ .abort := by
    intro event listed same
    rcases List.mem_cons.mp listed with rfl | listed
    · cases same
    · exact on ⟨event, listed, same⟩
  obtain ⟨launches, -⟩ := launches_of_steps (balanced_of_steps run) new more calm
  rw [(pass_of_steps index more).2.2] at launches
  have unmanned : m.crew index = [] := by
    rw [List.eq_nil_iff_forall_not_mem]
    intro slot listed
    obtain ⟨thread, there, mine, -⟩ := mem_crew.mp listed
    exact threadless_of_steps run (by rw [new]; rfl) thread there mine
  refine ⟨launches.isPrefix, ?_, fun ready still => ?_⟩
  · rw [crew_of_steps more, unmanned, List.nil_append]
  · refine launches.eq_kept account begun up ready ?_
    rintro ⟨event, listed, same⟩
    exact still event listed same

/-- A race that no worker takes on starts no thread and takes no scratch copy, and when it comes
back the coordinator is as its pass found it. -/
theorem as_found_of_unwilling
    (nobody : Reply.willing (m.repliesBy index (.call index :: during)) = []) :
    (∀ thread ∈ later.threads, thread.call ≠ index) ∧
      index ∉ m.record copiedFor (.call index :: during) ∧
      ∀ event next ending, later.ending? index = none → later.step event = some next →
        next.ending? index = some ending →
        next.AsFound (m.sightingsBy index (.call index :: during))
          (m.record freedOf (.call index :: during)) := by
  obtain ⟨begun, up, -⟩ := race_accounts run idle new more answered
  obtain ⟨asked, passed, kept⟩ := pass_of_steps index more
  obtain ⟨bare, uncopied⟩ := bare_of_race run idle new more (kept.trans nobody) up
  rw [asked, passed] at bare
  refine ⟨bare.unmanned, uncopied, fun event next ending goesOn step ended => ?_⟩
  obtain ⟨leaving, ends, bridge, same⟩ := (move_of_step step).returns begun goesOn ended
  have flying : later.InFlight index := inFlight_iff.mpr (by rw [leaving]; rfl)
  refine ⟨ends, bridge ▸ bare.unregistered flying, ?_⟩
  rintro ⟨slot, busy⟩ listed
  rw [same]
  cases busy with
  | false =>
    have held := bare.given flying slot (Sighting.mem_idle.mpr listed)
    rw [leaving] at held
    refine ⟨fun marked => absurd (held marked) List.not_mem_nil, fun marked => ?_⟩
    exact absurd marked.1 Bool.false_ne_true
  | true =>
    simpa only [true_and] using bare.found flying slot (Sighting.mem_marked.mpr listed)

/-- A race is lost when the failures that it counts are as many as the workers that took its problem
on, and it polls the workers of these slots only. -/
theorem lost_by_the_willing :
    let history := before ++ .call index :: during
    let willing := Reply.willing (m.repliesBy index (.call index :: during))
    let polls := (ofWorkers workers waits logs shared).pollsBy index history
    (later.ending? index = some (.outcome .allFailed) → willing ≠ [] ∧
        history.countP (Event.isRefusal index) + polls.countP Poll.isSeen = willing.length) ∧
      ∀ poll ∈ polls, ∃ thread, later.threads[poll.pending.thread]? = some thread ∧
        thread.call = index ∧ thread.slot ∈ willing := by
  intro history willing polls
  have whole : (ofWorkers workers waits logs shared).steps history = some later := by
    rw [steps_append, run]
    exact more
  refine ⟨fun ended => ?_, fun poll polled => ?_⟩
  · obtain ⟨-, -, account⟩ := race_accounts run idle new more answered
    have lost := failures_of_lost index whole (by rw [phaseOf_of_ending ended]; rfl)
    have keptNobody : (ofWorkers workers waits logs shared).keptBy index before = [] := by
      have first : (ofWorkers workers waits logs shared).phaseOf index = .arriving := rfl
      have account := accounts_of_arriving first run
      rw [new] at account
      exact account.2.1
    have kept := (pass_of_steps index more).2.2
    simp only [keptBy] at lost keptNobody kept
    rw [phaseOf_of_ending ended] at account
    refine ⟨account.2, ?_⟩
    rw [lost, record_append run, keptNobody, kept, List.nil_append]
  · obtain ⟨thread, there, mine⟩ := (books_of_steps index whole).2 poll polled
    obtain ⟨tried, crewed, -⟩ := launches_the_willing run idle new more answered
    have listed : thread.slot ∈ later.crew index :=
      mem_crew.mpr ⟨thread, List.mem_of_getElem? there, mine, rfl⟩
    rw [crewed] at listed
    refine ⟨thread, there, mine, tried.subset ?_⟩
    exact (List.filter_sublist.map _).subset listed

end Race

/-- A pass asks the workers that it finds idle and no other, and the race launches those that take
its problem on. A race for which there is none is refused, and the coordinator is as it was. -/
theorem eligibility_pass {workers : List (Worker D)} {waits : Waits} {logs : Bool} {shared : σ}
    {before during : List (Event D)} {m later : Machine D} {index : Nat}
    (run : (ofWorkers workers waits logs shared).steps before = some m)
    (idle : m.isRacing = false) (new : m.phaseOf index = .arriving)
    (more : m.steps (.call index :: during) = some later)
    (answered : ∀ reply ∈ m.repliesBy index (.call index :: during),
      reply.answer.isPanic = false) :
    let race : List (Event D) := .call index :: during
    let seen := m.sightingsBy index race
    let replies := m.repliesBy index race
    let willing := Reply.willing replies
    let attempts := m.attemptsBy index race
    let polls := (ofWorkers workers waits logs shared).pollsBy index (before ++ race)
    -- Every slot is looked at once, in pool order.
    (seen.map (·.slot) = List.range seen.length ∧
      ((later.phaseOf index).isPassing = false → seen.length = workers.length)) ∧
    -- The worker of each slot that was found idle is asked once, and no other worker is asked.
    (Reply.finals replies ++ (later.phaseOf index).inQuestion = Sighting.idle seen ∧
      (∀ reply ∈ replies, reply.slot ∈ Sighting.idle seen ∧ reply.slot ∉ Sighting.marked seen) ∧
      willing.Sublist (Sighting.idle seen)) ∧
    -- The workers that take the problem on are launched, in pool order, and no other worker is. A
    -- thread that the system refuses to start does not run.
    (attempts.map (·.slot) <+: willing ∧ later.crew index = Attempt.crew attempts ∧
      ((later.phaseOf index).isPreparing = false → (∀ event ∈ during, event ≠ .abort) →
        attempts.map (·.slot) = willing)) ∧
    -- How the race comes back tells that there was none, and whether a slot was found marked.
    (∀ ending, later.ending? index = some ending →
      (∀ busy, ending = .refused (.workersBusy busy) ↔
        willing = [] ∧ (Sighting.marked seen).length = busy ∧ 0 < busy) ∧
      (ending = .outcome .noneEligible ↔ willing = [] ∧ Sighting.marked seen = [])) ∧
    -- If there is none, no thread is started for the race and no scratch copy is taken, and the
    -- coordinator is as it was when the race comes back.
    (willing = [] → (∀ thread ∈ later.threads, thread.call ≠ index) ∧
      index ∉ m.record copiedFor race ∧
      ∀ event next ending, later.ending? index = none → later.step event = some next →
        next.ending? index = some ending → next.AsFound seen (m.record freedOf race)) ∧
    -- A race is lost when as many threads were refused to it or seen to have failed as there were
    -- workers that took its problem on, and it has polled the workers of these slots only.
    ((later.ending? index = some (.outcome .allFailed) → willing ≠ [] ∧
        (before ++ race).countP (Event.isRefusal index) + polls.countP Poll.isSeen =
          willing.length) ∧
      ∀ poll ∈ polls, ∃ thread, later.threads[poll.pending.thread]? = some thread ∧
        thread.call = index ∧ thread.slot ∈ willing) ∧
    -- The pass does come to its end and a race that is refused does come back, if workers answer.
    ((∀ solver problem shared, (D.asks solver problem shared).1 ≠ .undecided) →
      ∃ own last, (∀ event ∈ own, event.party? = some (.call index)) ∧
        later.steps own = some last ∧ (last.phaseOf index).isPassing = false ∧
        (Reply.willing (m.repliesBy index (race ++ own)) = [] →
          ∃ ending, last.ending? index = some ending)) := by
  intro race seen replies willing attempts polls
  obtain ⟨begun, up, account⟩ := race_accounts run idle new more answered
  refine ⟨⟨slots_of_sightings new more, fun finished => ?_⟩,
    asks_the_idle run idle new more answered, launches_the_willing run idle new more answered,
    fun ending ended => ?_, as_found_of_unwilling run idle new more answered,
    lost_by_the_willing run idle new more answered, fun decided => ?_⟩
  · exact (length_of_sightings new more begun up finished).trans (length_of_steps run)
  · rw [phaseOf_of_ending ended] at account begun up
    exact Ending.Accounts.refusals account begun up
  · obtain ⟨own, last, owns, goesOn, finished, home⟩ :=
      ((balanced_of_steps run).steps more).comes_home new more begun decided
    refine ⟨own, last, owns, goesOn, finished, fun nobody => home ?_⟩
    have further : m.steps (race ++ own) = some last := by
      rw [steps_append, more]
      exact goesOn
    exact (pass_of_steps index further).2.2.trans nobody

/-- Four workers: one that goes on until it is stopped, one that heeds no stop, one that takes the
third problem on and fails, and one that takes nothing on. -/
def mixedPool : Scripted.Script Nat Nat :=
  { acts := [[.spin, .spin, .fail .exhausted 0], [.holdDeaf 7],
      [.ineligible, .ineligible, .fail .exhausted 0], [.ineligible]] }

/-- A race is called off while two workers are at work, and the next call for one has come. -/
def twoAtWork : List (Event mixedPool.domain) :=
  [Event.arrive (0 : Nat)] ++ List.replicate 15 (Event.call 0) ++
    List.replicate 3 (Event.thread 1) ++ [Event.abort] ++ List.replicate 3 (Event.call 0) ++
    [Event.arrive (1 : Nat)]

/-- The next race passes over both, one of which is done with its slot before the race is
refused. -/
def passOverTwo : List (Event mixedPool.domain) :=
  List.replicate 2 (Event.call 1) ++ List.replicate 4 (Event.thread 0) ++
    List.replicate 5 (Event.call 1)

/-- The race after it launches two workers, and both fail. -/
def twoFail : List (Event mixedPool.domain) :=
  List.replicate 13 (Event.call 2) ++ List.replicate 8 (Event.thread 2) ++
    List.replicate 8 (Event.thread 3) ++ List.replicate 5 (Event.call 2)

theorem a_refused_and_a_lost_race :
    ∃ m later next mid last,
      (mixedPool.coordinator { poll := 0, busy := 0 }).steps twoAtWork = some m ∧
      m.steps (.call 1 :: passOverTwo) = some later ∧ later.step (.call 1) = some next ∧
      next.ending? 1 = some (.refused (.workersBusy 2)) ∧
      (∀ thread ∈ later.threads, thread.call ≠ 1) ∧
      next.AsFound [⟨0, true⟩, ⟨1, true⟩, ⟨2, false⟩, ⟨3, false⟩] [0] ∧
      next.steps [.arrive (2 : Nat)] = some mid ∧ mid.steps (.call 2 :: twoFail) = some last ∧
      last.ending? 2 = some (.outcome .allFailed) ∧ last.crew 2 = [0, 2] := by
  obtain ⟨m, later, next, mid, last, run, facts, more, goesOn, step, refused, arrives, facts', lost,
      ended⟩ : ∃ m later next mid last,
        (mixedPool.coordinator { poll := 0, busy := 0 }).steps twoAtWork = some m ∧
        (m.isRacing = false ∧ m.phaseOf 1 = .arriving ∧
          m.sightingsBy 1 (.call 1 :: passOverTwo) =
            [⟨0, true⟩, ⟨1, true⟩, ⟨2, false⟩, ⟨3, false⟩] ∧
          m.repliesBy 1 (.call 1 :: passOverTwo) = [⟨2, .refuses⟩, ⟨3, .refuses⟩] ∧
          m.record freedOf (.call 1 :: passOverTwo) = [0]) ∧
        m.steps (.call 1 :: passOverTwo) = some later ∧ later.ending? 1 = none ∧
        later.step (.call 1) = some next ∧
        next.ending? 1 = some (.refused (.workersBusy 2)) ∧
        next.steps [.arrive (2 : Nat)] = some mid ∧
        (mid.isRacing = false ∧ mid.phaseOf 2 = .arriving ∧
          mid.repliesBy 2 (.call 2 :: twoFail) = [⟨0, .accepts⟩, ⟨2, .accepts⟩, ⟨3, .refuses⟩] ∧
          mid.attemptsBy 2 (.call 2 :: twoFail) = [⟨0, true⟩, ⟨2, true⟩]) ∧
        mid.steps (.call 2 :: twoFail) = some last ∧
        last.ending? 2 = some (.outcome .allFailed) :=
    ⟨_, _, _, _, _, rfl, ⟨rfl, rfl, rfl, rfl, rfl⟩, rfl, rfl, rfl, rfl, rfl,
      ⟨rfl, rfl, rfl, rfl⟩, rfl, rfl⟩
  obtain ⟨idle, new, seen, replies, freed⟩ := facts
  obtain ⟨idle', new', replies', attempts⟩ := facts'
  have whole : (mixedPool.coordinator { poll := 0, busy := 0 }).steps
      (twoAtWork ++ .call 1 :: (passOverTwo ++ [.call 1, .arrive (2 : Nat)])) = some mid := by
    rw [← List.cons_append, steps_append, run, Option.bind_some, steps_append, more,
      Option.bind_some, steps_cons, step, Option.bind_some, arrives]
  obtain ⟨-, -, -, -, asFound, -⟩ := eligibility_pass run idle new more (by
    rw [replies]
    decide)
  obtain ⟨-, -, ⟨-, crewed, -⟩, -⟩ := eligibility_pass whole idle' new' lost (by
    rw [replies']
    decide)
  rw [seen, replies, freed] at asFound
  obtain ⟨unmanned, -, back⟩ := asFound rfl
  refine ⟨m, later, next, mid, last, run, more, step, refused, unmanned,
    back _ _ _ goesOn step refused, arrives, lost, ended, ?_⟩
  rw [crewed, attempts]
  rfl

end Machine

end MotionRace
