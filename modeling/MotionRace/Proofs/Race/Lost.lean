import MotionRace.Proofs.Race.Pass

/-!
# Slots that are lost

Between two races a slot is marked because a thread is still at work for it, or because it was lost:
a call that a panic took down had claimed it, or the thread that was started for it died outside its
solve. Nothing ever takes a slot back that was lost. The next race passes over it, reports it as
busy, and asks every other slot that nobody works for.

Main statements: `Balanced.busy_iff_of_idle`, what marks a slot between two races, and
`Balanced.next_pass_ended`, what the next race asks and what it passes over.
-/

namespace MotionRace

variable {σ : Type} {D : Domain σ}

/-- Whether a thread in a phase is at work: it has not marked its slot as free and is going to. -/
def ThreadPhase.works : ThreadPhase D → Bool
  | .starting => true
  | .running _ => true
  | .unlocked _ => true
  | _ => false

/-- Whether a thread in a phase was taken down. -/
def ThreadPhase.isDown : ThreadPhase D → Bool
  | .died _ => true
  | _ => false

theorem ThreadPhase.holds_iff {phase : ThreadPhase D} :
    phase.holds = true ↔ phase.works = true ∨ phase.isDown = true := by
  cases phase <;> simp [holds, works, isDown]

/-- Whether a call that ended so had the racing flag. -/
def Ending.hadFlight {α : Type} : Ending α → Bool
  | .refused .alreadyRacing => false
  | _ => true

/-- Whether a call in a phase came and was not turned away. -/
def CallPhase.begun : CallPhase D → Bool
  | .arriving => false
  | .leaving ending => ending.hadFlight
  | .ended ending => ending.hadFlight
  | _ => true

/-- Whether a call in a phase is starting threads. -/
def CallPhase.isLaunching : CallPhase D → Bool
  | .launching .. => true
  | _ => false

/-- A call that had the racing flag and came back has dealt with every slot. -/
theorem Ending.Accounts.dealt {α : Type} {slots : Nat} {asked kept passed : List Nat}
    {ending : Ending α} (account : ending.Accounts slots asked kept passed)
    (flown : ending.hadFlight = true) (whole : ∀ panic, ending ≠ .panicked panic) :
    Dealt slots asked kept passed := by
  cases ending with
  | outcome outcome => cases outcome <;> exact account.1
  | refused error =>
    cases error with
    | alreadyRacing => cases flown
    | workersBusy busy => exact account.1
  | panicked panic => exact absurd rfl (whole panic)

namespace Machine

/-- Whether a thread is at work for a slot. -/
def Works (m : Machine D) (slot : Nat) : Prop :=
  ∃ (index : Nat) (thread : Thread D), m.threads[index]? = some thread ∧ thread.slot = slot ∧
    thread.phase.works = true

/-- Whether a slot is lost, given the slots that were left behind: it is one of them, or its thread
was taken down. -/
def Lost (m : Machine D) (left : List Nat) (slot : Nat) : Prop :=
  slot ∈ left ∨
    ∃ (index : Nat) (thread : Thread D), m.threads[index]? = some thread ∧
      thread.slot = slot ∧ thread.phase.isDown = true

theorem inFlight_iff {m : Machine D} {index : Nat} :
    m.InFlight index ↔ (m.phaseOf index).inFlight = true := by
  unfold InFlight phaseOf
  cases m.calls[index]? <;> simp [CallPhase.inFlight]

theorem phaseOf_of_ending {m : Machine D} {index : Nat} {ending : Ending D.Artifact}
    (ended : m.ending? index = some ending) : m.phaseOf index = .ended ending := by
  unfold ending? at ended
  split at ended
  next there =>
    cases ended
    exact phaseOf_eq there
  next => cases ended

section Balance

variable {m : Machine D} {left : List Nat} {slot : Nat}

/-- A slot is marked exactly when somebody holds it or it was left behind. -/
theorem Balanced.busy_iff (balanced : Balanced m left) :
    m.isBusy slot = true ↔ (∃ party, m.Holds party slot) ∨ slot ∈ left := by
  refine ⟨balanced.holds_of_busy, ?_⟩
  rintro (⟨party, holds⟩ | lost)
  · exact (balanced.busy_of_holds holds).1
  · have whole := balanced.claims slot
    have most := Bool.toNat_le (m.isBusy slot)
    have part := List.count_pos_iff.mpr lost
    exact Bool.toNat_eq_one.mp (by omega)

/-- A call that holds a slot is in flight. -/
theorem inFlight_of_holds {caller : Nat} (holds : m.Holds (.call caller) slot) :
    m.InFlight caller := by
  obtain ⟨call, there, held⟩ := holds
  refine ⟨call, there, ?_⟩
  cases phase : call.phase with
  | arriving | ended => simp [phase, CallPhase.held] at held
  | _ => rfl

theorem holds_thread_iff {index : Nat} :
    m.Holds (.thread index) slot ↔
      ∃ thread, m.threads[index]? = some thread ∧ thread.slot = slot ∧
        (thread.phase.works = true ∨ thread.phase.isDown = true) := by
  simp only [Holds, ThreadPhase.holds_iff]
  exact exists_congr fun thread => and_congr_right fun _ => And.comm

/-- While no race is in flight, a slot is marked exactly when a thread is at work for it or it is
lost. -/
theorem Balanced.busy_iff_of_idle (balanced : Balanced m left) (idle : m.isRacing = false) :
    m.isBusy slot = true ↔ m.Works slot ∨ m.Lost left slot := by
  rw [balanced.busy_iff]
  constructor
  · rintro (⟨index | index, holds⟩ | lost)
    · have racing := balanced.racing_iff.mpr ⟨index, inFlight_of_holds holds⟩
      exact absurd racing (ne_true_of_eq_false idle)
    · obtain ⟨thread, there, housed, works | down⟩ := holds_thread_iff.mp holds
      · exact .inl ⟨index, thread, there, housed, works⟩
      · exact .inr (.inr ⟨index, thread, there, housed, down⟩)
    · exact .inr (.inl lost)
  · rintro (⟨index, thread, there, housed, works⟩ | lost | ⟨index, thread, there, housed, down⟩)
    · exact .inl ⟨.thread index, holds_thread_iff.mpr ⟨thread, there, housed, .inl works⟩⟩
    · exact .inr lost
    · exact .inl ⟨.thread index, holds_thread_iff.mpr ⟨thread, there, housed, .inr down⟩⟩

/-- A slot that is lost is marked. -/
theorem Balanced.busy_of_lost (balanced : Balanced m left) (lost : m.Lost left slot) :
    m.isBusy slot = true := by
  rcases lost with lost | ⟨index, thread, there, housed, down⟩
  · exact balanced.busy_iff.mpr (.inr lost)
  · exact balanced.busy_iff.mpr
      (.inl ⟨.thread index, holds_thread_iff.mpr ⟨thread, there, housed, .inr down⟩⟩)

end Balance

/-! ## What a pass finds -/

section Step

variable {m effect next : Machine D} {left : List Nat} {index slot : Nat} {problem : D.Problem}
  {event : Event D} {before after : CallPhase D}

/-- A call asks only a slot that is not marked. -/
theorem CallMove.free_of_asks (move : CallMove m index problem event before effect after)
    (asks : slot ∈ before.asks after) : m.isBusy slot = false := by
  cases move with
  | @claims _ _ _ _ there free =>
    rw [List.mem_singleton.mp asks]
    simp [isBusy, there, free]
  | claimsOver =>
    rw [asks_afterClaims] at asks
    exact absurd asks List.not_mem_nil
  | _ => exact absurd asks List.not_mem_nil

/-- A call passes over only a slot that is marked and that it did not ask. -/
theorem CallMove.busy_of_passes (move : CallMove m index problem event before effect after)
    (passes : slot ∈ before.passes after) :
    m.isBusy slot = true ∧ before.inFlight = true ∧
      ∀ {size asked kept passed}, before.Accounts size asked kept passed → slot ∉ asked := by
  cases move with
  | @passesOver _ _ _ _ there taken =>
    obtain rfl := List.mem_singleton.mp passes
    refine ⟨by simp [isBusy, there, taken], rfl, ?_⟩
    intro size asked kept passed account asks
    exact Nat.lt_irrefl slot (account.1.mem_iff.mpr (.inl asks))
  | claimsOver =>
    rw [passes_afterClaims] at passes
    exact absurd passes List.not_mem_nil
  | _ => exact absurd passes List.not_mem_nil

/-- A call marks only a slot that it asks, and has the racing flag then. -/
theorem CallMove.asks_of_marks (move : CallMove m index problem event before effect after)
    (free : m.isBusy slot = false) (busy : effect.isBusy slot = true) :
    slot ∈ before.asks after ∧ before.inFlight = true := by
  cases move with
  | @claims asked =>
    by_cases same : asked = slot
    · exact ⟨List.mem_singleton.mpr same.symm, rfl⟩
    · rw [isBusy_setBusy, if_neg same, free] at busy
      cases busy
  | declined | handsBack | notStarted =>
    rw [isBusy_setBusy] at busy
    split at busy
    · rw [Bool.and_false] at busy
      cases busy
    · exact absurd busy (ne_true_of_eq_false free)
  | _ => exact absurd busy (ne_true_of_eq_false free)

/-- A thread marks no slot. -/
theorem ThreadMove.busy_before {thread : Thread D} {housed : Slot D} {phase later : ThreadPhase D}
    (move : ThreadMove m index thread housed phase effect later)
    (busy : effect.isBusy slot = true) : m.isBusy slot = true := by
  cases move with
  | locks | finishes | dies => rwa [isBusy_setLocked] at busy
  | runs => rwa [isBusy_setWorker] at busy
  | frees =>
    rw [isBusy_setBusy] at busy
    split at busy
    · rw [Bool.and_false] at busy
      cases busy
    · exact busy
  | logs | reports => exact busy

/-- A thread that was taken down moves no more. -/
theorem ThreadMove.not_down {thread : Thread D} {housed : Slot D} {phase later : ThreadPhase D}
    (move : ThreadMove m index thread housed phase effect later) : phase.isDown = false := by
  cases move <;> rfl

/-- While a call has the racing flag, nobody else marks a slot. -/
theorem Balanced.asks_of_marks (balanced : Balanced m left) (move : Move m event next)
    (flying : m.InFlight index) (free : m.isBusy slot = false) (busy : next.isBusy slot = true) :
    slot ∈ m.transition CallPhase.asks index event next := by
  cases move with
  | arrives => exact absurd busy (ne_true_of_eq_false free)
  | @ofCall mover problem _ before effect after there move =>
    obtain ⟨asks, also⟩ := move.asks_of_marks free busy
    obtain rfl := balanced.flight_unique flying ⟨_, there, also⟩
    rw [transition_own there move]
    exact asks
  | ofThread there located move =>
    exact absurd (move.busy_before busy) (ne_true_of_eq_false free)
  | aborts =>
    rw [isBusy_abort] at busy
    exact absurd busy (ne_true_of_eq_false free)

/-- What an event says of a slot in the pass of a call, it says by a move of that call. -/
theorem Move.of_transition {yield : (before after : CallPhase D) → List Nat}
    (move : Move m event next) (yields : slot ∈ m.transition yield index event next) :
    ∃ problem before effect after, m.calls[index]? = some ⟨problem, before⟩ ∧
      CallMove m index problem event before effect after ∧ slot ∈ yield before after := by
  unfold transition at yields
  split at yields
  next own =>
    obtain ⟨problem, before, effect, after, there, own, rfl⟩ := move.exists_callMove own
    rw [Machine.phaseOf_eq there, phaseOf_setCall_self own.calls_eq there] at yields
    exact ⟨problem, before, effect, after, there, own, yields⟩
  next => exact absurd yields List.not_mem_nil

/-- A thread that was taken down stays where it is. -/
theorem Move.down_stays (move : Move m event next) {runner : Nat} {thread : Thread D}
    (there : m.threads[runner]? = some thread) (down : thread.phase.isDown = true) :
    next.threads[runner]? = some thread := by
  by_cases own : event = .thread runner
  · cases move with
    | @ofThread index mover _ _ _ there' located move =>
      obtain rfl : index = runner := Event.thread.inj own
      obtain rfl : mover = thread := Option.some.inj (there'.symm.trans there)
      exact absurd down (ne_true_of_eq_false move.not_down)
    | ofCall _ move => cases move <;> cases own
    | _ => cases own
  · exact move.threads_eq there own

/-- A slot that is lost stays lost. -/
theorem Lost.move (lost : m.Lost left slot) (move : Move m event next) :
    next.Lost (left ++ m.forsaken event next) slot := by
  rcases lost with lost | ⟨runner, thread, there, housed, down⟩
  · exact .inl (List.mem_append_left _ lost)
  · exact .inr ⟨runner, thread, move.down_stays there down, housed, down⟩

/-- A call that has begun never arrives again, and is not turned away. -/
theorem CallMove.begun (move : CallMove m index problem event before effect after)
    (begun : before.begun = true) : after.begun = true := by
  cases move with
  | turnedAway | begins | beginsAtOnce => cases begun
  | @claimsOver _ claimed busy => cases claimed <;> cases busy <;> rfl
  | leaves => exact begun
  | _ => rfl

theorem CallMove.inFlight_before (move : CallMove m index problem event before effect after)
    (begun : before.begun = true) (flying : after.inFlight = true) : before.inFlight = true := by
  cases move with
  | turnedAway | begins | beginsAtOnce => cases begun
  | _ => rfl

theorem Move.begun (move : Move m event next) (begun : (m.phaseOf index).begun = true) :
    (next.phaseOf index).begun = true ∧ (next.InFlight index → m.InFlight index) := by
  simp only [inFlight_iff]
  by_cases own : event.party? = some (.call index)
  · obtain ⟨problem, before, effect, after, there, own, rfl⟩ := move.exists_callMove own
    rw [Machine.phaseOf_eq there] at begun ⊢
    rw [phaseOf_setCall_self own.calls_eq there]
    exact ⟨own.begun begun, own.inFlight_before begun⟩
  · rw [move.phaseOf_eq own]
    exact ⟨begun, id⟩

end Step

section Run

variable {start m later : Machine D} {left : List Nat} {index slot : Nat} {events : List (Event D)}

theorem Lost.steps (lost : start.Lost left slot) (run : start.steps events = some m) :
    m.Lost (left ++ start.record forsaken events) slot := by
  induction events, m, run using steps_induction with
  | nothing =>
    rw [record_nil, List.append_nil]
    exact lost
  | more events m event next run step ih =>
    rw [record_concat run step, ← List.append_assoc]
    exact ih.move (move_of_step step)

/-- A slot that is lost is asked by nobody any more. -/
theorem Balanced.not_asked_of_lost (balanced : Balanced start left) (lost : start.Lost left slot)
    (run : start.steps events = some m) : slot ∉ start.askedBy index events := by
  induction events, m, run using steps_induction with
  | nothing => exact List.not_mem_nil
  | more events m event next run step ih =>
    intro asked
    simp only [askedBy, record_concat run step] at asked
    rcases List.mem_append.mp asked with asked | asked
    · exact ih asked
    · obtain ⟨_, _, _, _, -, own, asks⟩ := (move_of_step step).of_transition asked
      have busy := (balanced.steps run).busy_of_lost (lost.steps run)
      exact absurd busy (ne_true_of_eq_false (own.free_of_asks asks))

theorem begun_of_steps (begun : (start.phaseOf index).begun = true)
    (run : start.steps events = some m) : (m.phaseOf index).begun = true := by
  induction events, m, run using steps_induction with
  | nothing => exact begun
  | more events m event next run step ih => exact ((move_of_step step).begun ih).1

/-- A slot that was free when a call began is free as long as the call is in flight and has not
asked it. -/
theorem Balanced.free_of_steps (balanced : Balanced start left)
    (begun : (start.phaseOf index).begun = true) (free : start.isBusy slot = false)
    (run : start.steps events = some m) (flying : m.InFlight index)
    (unasked : slot ∉ start.askedBy index events) : m.isBusy slot = false := by
  induction events, m, run using steps_induction with
  | nothing => exact free
  | more events m event next run step ih =>
    have move := move_of_step step
    have former := (move.begun (begun_of_steps begun run)).2 flying
    simp only [askedBy, record_concat run step] at unasked
    rw [List.mem_append, not_or] at unasked
    obtain ⟨before, now⟩ := unasked
    -- Whoever marks a slot now is the call itself, which asks the slot by it.
    apply Bool.eq_false_iff.mpr
    intro busy
    exact now ((balanced.steps run).asks_of_marks move former (ih former before) busy)

/-- A call in flight passes over no slot that was free when it began. -/
theorem Balanced.not_passed_of_free (balanced : Balanced start left)
    (begun : (start.phaseOf index).begun = true)
    (account : (start.phaseOf index).Accounts start.slots.length [] [] [])
    (free : start.isBusy slot = false) (run : start.steps events = some m) :
    slot ∉ start.passedBy index events := by
  induction events, m, run using steps_induction with
  | nothing => exact List.not_mem_nil
  | more events m event next run step ih =>
    intro passed
    simp only [passedBy, record_concat run step] at passed
    rcases List.mem_append.mp passed with passed | passed
    · exact ih passed
    · obtain ⟨_, before, _, _, there, own, passes⟩ := (move_of_step step).of_transition passed
      obtain ⟨busy, flying, unasked⟩ := own.busy_of_passes passes
      have now := (accounts_of_steps account run).2
      rw [phaseOf_eq there] at now
      have idle := balanced.free_of_steps begun free run ⟨_, there, flying⟩ (unasked now)
      exact absurd busy (ne_true_of_eq_false idle)

theorem begins_of_idle {next : Machine D} (new : m.phaseOf index = .arriving)
    (idle : m.isRacing = false) (step : m.step (.call index) = some next) :
    ∃ problem phase, m.calls[index]? = some ⟨problem, .arriving⟩ ∧
      (phase = .waiting ∨ phase = .claiming 0 [] 0) ∧
      next = m.beginFlight.setCall index phase := by
  obtain ⟨problem, before, effect, after, there, own, rfl⟩ :=
    (move_of_step step).exists_callMove rfl
  obtain rfl := (phaseOf_eq there).symm.trans new
  cases own with
  | turnedAway racing => exact absurd racing (ne_true_of_eq_false idle)
  | begins => exact ⟨problem, _, there, .inl rfl, rfl⟩
  | beginsAtOnce => exact ⟨problem, _, there, .inr rfl, rfl⟩

/-- The next race after a moment without one asks no slot that is lost, and passes over no other
slot that nobody works for. -/
theorem Balanced.next_pass (balanced : Balanced m left) (idle : m.isRacing = false)
    (new : m.phaseOf index = .arriving) (run : m.steps (.call index :: events) = some later) :
    (later.phaseOf index).begun = true ∧ ∀ slot, ¬ m.Works slot →
      (slot ∈ m.askedBy index (.call index :: events) → ¬ m.Lost left slot) ∧
      (slot ∈ m.passedBy index (.call index :: events) → m.Lost left slot) := by
  obtain ⟨next, step, rest⟩ := Option.bind_eq_some_iff.mp run
  obtain ⟨problem, phase, there, first, rfl⟩ := begins_of_idle new idle step
  have now : (m.beginFlight.setCall index phase).phaseOf index = phase :=
    phaseOf_setCall_self rfl there phase
  have begun : phase.begun = true := by
    rcases first with rfl | rfl <;> rfl
  have account : phase.Accounts m.slots.length [] [] [] := by
    rcases first with rfl | rfl
    · exact ⟨rfl, rfl, rfl⟩
    · exact ⟨Dealt.nothing, Nat.zero_le _, rfl, rfl⟩
  refine ⟨begun_of_steps (now.symm ▸ begun) rest, fun slot unused => ⟨fun asks lost =>
    balanced.not_asked_of_lost lost run asks, fun passes => ?_⟩⟩
  apply Classical.byContradiction
  intro kept
  have free : m.isBusy slot = false := by
    apply Bool.eq_false_iff.mpr
    intro busy
    exact ((balanced.busy_iff_of_idle idle).mp busy).elim unused kept
  have opening : m.passedBy index (.call index :: events) =
      (m.beginFlight.setCall index phase).passedBy index events := by
    simp only [passedBy, record, step, transition, Event.party?, if_true, new, now,
      CallPhase.passes, List.nil_append]
  rw [opening] at passes
  exact (balanced.move (move_of_step step)).not_passed_of_free (now.symm ▸ begun)
    (now.symm ▸ account) free rest passes

/-- When the next race comes back it has asked every slot that nobody works for, but for those that
are lost, and those alone it has passed over. -/
theorem Balanced.next_pass_ended (balanced : Balanced m left) (idle : m.isRacing = false)
    (new : m.phaseOf index = .arriving) (run : m.steps (.call index :: events) = some later)
    {ending : Ending D.Artifact} (ended : later.ending? index = some ending)
    (whole : ∀ panic, ending ≠ .panicked panic) :
    (∀ slot < m.slots.length, ¬ m.Works slot →
      (slot ∈ m.askedBy index (.call index :: events) ↔ ¬ m.Lost left slot) ∧
      (slot ∈ m.passedBy index (.call index :: events) ↔ m.Lost left slot)) ∧
    (m.passedBy index (.call index :: events)).Nodup ∧
    ∀ busy, ending = .refused (.workersBusy busy) →
      busy = (m.passedBy index (.call index :: events)).length := by
  obtain ⟨begun, found⟩ := balanced.next_pass idle new run
  have account := accounts_of_arriving new run
  rw [phaseOf_of_ending ended] at account begun
  have dealt := Ending.Accounts.dealt account begun whole
  refine ⟨fun slot inside unused => ?_, dealt.nodup_passed, ?_⟩
  · have either := dealt.mem_iff.mp inside
    obtain ⟨kept, lost⟩ := found slot unused
    refine ⟨⟨kept, fun kept => ?_⟩, ⟨lost, fun lost => ?_⟩⟩
    · exact either.resolve_right fun passes => kept (lost passes)
    · exact either.resolve_left fun asks => kept asks lost
  · rintro busy rfl
    exact account.2.2.1

end Run

end Machine

end MotionRace
