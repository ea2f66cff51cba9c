import MotionRace.Proofs.Race.Claims

/-!
# One flight, one holder

At most one call has the racing flag and at most one party holds a slot. A slot that is held is
marked, only its holder marks it as free, and a claim stays with the race that made it: a call hands
it to a thread of its own or to nobody.

All of it is read off the balance of claims: what adds up to at most one has at most one part.
-/

namespace MotionRace

variable {σ : Type} {D : Domain σ}

/-- Somebody who can hold a slot. -/
inductive Party where
  | call (index : Nat)
  | thread (index : Nat)
  deriving Repr, DecidableEq

/-- Who makes an event happen, if it is a party. -/
def Event.party? : Event D → Option Party
  | .call index => some (.call index)
  | .expire index => some (.call index)
  | .refuse index => some (.call index)
  | .thread index => some (.thread index)
  | .arrive _ => none
  | .abort => none

namespace Machine

/-- Whether a call has the racing flag. -/
def InFlight (m : Machine D) (index : Nat) : Prop :=
  ∃ call, m.calls[index]? = some call ∧ call.phase.inFlight = true

/-- Whether a party holds a slot: a call that claimed it and has not let go of it, or a thread that
was started for it and has not marked it as free. -/
def Holds (m : Machine D) : Party → Nat → Prop
  | .call index, slot => ∃ call, m.calls[index]? = some call ∧ slot ∈ call.phase.held
  | .thread index, slot =>
    ∃ thread, m.threads[index]? = some thread ∧ thread.phase.holds = true ∧ thread.slot = slot

/-- The race that a party belongs to. -/
def raceOf (m : Machine D) : Party → Option Nat
  | .call index => some index
  | .thread index => (m.threads[index]?).map (·.call)

/-! ## At most one -/

section Balance

variable {m : Machine D} {lost : List Nat} {slot : Nat}

theorem one_le_heldByCalls {index : Nat} (holds : m.Holds (.call index) slot) :
    1 ≤ m.heldByCalls slot := by
  obtain ⟨call, there, held⟩ := holds
  have part : call.phase.held.count slot ≤ m.heldByCalls slot :=
    le_sum_map (fun c : Call D => c.phase.held.count slot) there
  exact Nat.le_trans (List.count_pos_iff.mpr held) part

private theorem weight_of_thread {thread : Thread D} (holds : thread.phase.holds = true)
    (housed : thread.slot = slot) : (thread.phase.holds && thread.slot == slot).toNat = 1 := by
  simp [holds, housed]

theorem one_le_heldByThreads {index : Nat} (holds : m.Holds (.thread index) slot) :
    1 ≤ m.heldByThreads slot := by
  obtain ⟨thread, there, holds, housed⟩ := holds
  rw [← weight_of_thread holds housed]
  exact le_sum_map (fun t : Thread D => (t.phase.holds && t.slot == slot).toNat) there

/-- A slot that somebody holds is marked, and was not left behind. -/
theorem Balanced.busy_of_holds (balanced : Balanced m lost) {party : Party}
    (holds : m.Holds party slot) : m.isBusy slot = true ∧ slot ∉ lost := by
  have whole := balanced.claims slot
  have most := Bool.toNat_le (m.isBusy slot)
  have part : 1 ≤ m.heldByCalls slot + m.heldByThreads slot := by
    cases party with
    | call index => exact Nat.le_add_right_of_le (one_le_heldByCalls holds)
    | thread index => exact Nat.le_add_left_of_le (one_le_heldByThreads holds)
  constructor
  · exact Bool.toNat_eq_one.mp (by omega)
  · exact List.count_eq_zero.mp (by omega)

/-- Two parties never hold the same slot. -/
theorem Balanced.holder_unique (balanced : Balanced m lost) {first second : Party}
    (one : m.Holds first slot) (other : m.Holds second slot) : first = second := by
  have whole := balanced.claims slot
  have most := Bool.toNat_le (m.isBusy slot)
  -- Two holders would weigh two, and a slot is marked at most once.
  apply Decidable.byContradiction
  intro apart
  cases first with
  | call i =>
    have calls := one_le_heldByCalls one
    cases second with
    | call j =>
      obtain ⟨a, there, held⟩ := one
      obtain ⟨b, there', held'⟩ := other
      have both := add_le_sum_map (fun c : Call D => c.phase.held.count slot)
        (fun same => apart (congrArg Party.call same)) there there'
      have left := List.count_pos_iff.mpr held
      have right := List.count_pos_iff.mpr held'
      simp only [heldByCalls] at whole
      omega
    | thread j =>
      have threads := one_le_heldByThreads other
      omega
  | thread i =>
    have threads := one_le_heldByThreads one
    cases second with
    | call j =>
      have calls := one_le_heldByCalls other
      omega
    | thread j =>
      obtain ⟨a, there, holds, housed⟩ := one
      obtain ⟨b, there', holds', housed'⟩ := other
      have both := add_le_sum_map (fun t : Thread D => (t.phase.holds && t.slot == slot).toNat)
        (fun same => apart (congrArg Party.thread same)) there there'
      rw [weight_of_thread holds housed, weight_of_thread holds' housed'] at both
      simp only [heldByThreads] at whole
      omega

/-- A slot that is marked is held by somebody or was left behind. -/
theorem Balanced.holds_of_busy (balanced : Balanced m lost) (busy : m.isBusy slot = true) :
    (∃ party, m.Holds party slot) ∨ slot ∈ lost := by
  have whole := balanced.claims slot
  rw [busy, Bool.toNat_true] at whole
  by_cases calls : 0 < m.heldByCalls slot
  · obtain ⟨index, call, there, held⟩ := exists_of_sum_map_pos _ calls
    exact .inl ⟨.call index, call, there, List.count_pos_iff.mp held⟩
  · by_cases threads : 0 < m.heldByThreads slot
    · obtain ⟨index, thread, there, counts⟩ := exists_of_sum_map_pos _ threads
      rw [toNat_pos_iff, Bool.and_eq_true, beq_iff_eq] at counts
      exact .inl ⟨.thread index, thread, there, counts⟩
    · exact .inr (List.count_pos_iff.mp (by omega))

/-- The racing flag is up exactly when some call has it. -/
theorem Balanced.racing_iff (balanced : Balanced m lost) :
    m.isRacing = true ↔ ∃ index, m.InFlight index := by
  have whole := balanced.flight
  constructor
  · intro racing
    have positive : 0 < m.flights := by
      rw [whole]
      exact toNat_pos_iff.mpr racing
    obtain ⟨index, call, there, counts⟩ := exists_of_sum_map_pos _ positive
    exact ⟨index, call, there, toNat_pos_iff.mp counts⟩
  · rintro ⟨index, call, there, flying⟩
    have part := balanced.inFlight_le there
    rw [flying] at part
    exact toNat_pos_iff.mp part

/-- Two calls never have the racing flag at once. -/
theorem Balanced.flight_unique (balanced : Balanced m lost) {first second : Nat}
    (one : m.InFlight first) (other : m.InFlight second) : first = second := by
  obtain ⟨a, there, flying⟩ := one
  obtain ⟨b, there', flying'⟩ := other
  have whole := balanced.flight
  have most := Bool.toNat_le m.flight.racing
  apply Decidable.byContradiction
  intro apart
  have both : a.phase.inFlight.toNat + b.phase.inFlight.toNat ≤ m.flights :=
    add_le_sum_map (fun c : Call D => c.phase.inFlight.toNat) apart there there'
  rw [flying, flying'] at both
  simp only [Bool.toNat_true] at both
  omega

/-- Nobody is inside the worker of a slot that no thread holds. -/
theorem Balanced.not_locked (balanced : Balanced m lost)
    (idle : ∀ index, ¬ m.Holds (.thread index) slot) : m.isLocked slot = false := by
  apply Decidable.byContradiction
  intro locked
  have positive : 0 < m.insiders slot := by
    rw [balanced.locks slot]
    exact toNat_pos_iff.mpr (Bool.eq_true_of_not_eq_false locked)
  obtain ⟨index, thread, there, counts⟩ := exists_of_sum_map_pos _ positive
  rw [toNat_pos_iff, Bool.and_eq_true, beq_iff_eq] at counts
  have holds : thread.phase.holds = true := by
    cases phase : thread.phase with
    | running _ => rfl
    | _ => simp [phase, ThreadPhase.inside] at counts
  exact idle index ⟨thread, there, holds, counts.2⟩

end Balance

/-! ## How a claim changes hands -/

section Step

variable {m next : Machine D} {lost : List Nat} {slot : Nat} {event : Event D}

theorem CallMove.party_eq {effect : Machine D} {index : Nat} {problem : D.Problem}
    {before after : CallPhase D} (move : CallMove m index problem event before effect after) :
    event.party? = some (.call index) := by
  cases move <;> rfl

/-- What a call makes happen is a move of that call. -/
theorem Move.exists_callMove {index : Nat} (move : Move m event next)
    (own : event.party? = some (.call index)) :
    ∃ problem before effect after, m.calls[index]? = some ⟨problem, before⟩ ∧
      CallMove m index problem event before effect after ∧ next = effect.setCall index after := by
  cases move with
  | ofCall there move =>
    obtain rfl := Party.call.inj (Option.some.inj (move.party_eq.symm.trans own))
    exact ⟨_, _, _, _, there, move, rfl⟩
  | _ => cases own

/-- Whoever marks a slot as free holds it. -/
theorem Balanced.holds_of_frees (balanced : Balanced m lost) (move : Move m event next)
    (busy : m.isBusy slot = true) (free : next.isBusy slot = false) :
    ∃ party, event.party? = some party ∧ m.Holds party slot := by
  cases move with
  | arrives problem => exact absurd busy (ne_true_of_eq_false free)
  | @ofCall index problem _ before effect after there move =>
    have part := move.balance (balanced.count_le there) slot
    have threads := move.heldByThreads_le slot
    have freed : effect.isBusy slot = false := free
    rw [busy, freed, Bool.toNat_true, Bool.toNat_false] at part
    have held : 0 < before.held.count slot := by omega
    exact ⟨.call index, move.party_eq, _, there, List.count_pos_iff.mp held⟩
  | @ofThread index thread housed effect after there located move =>
    have part := move.balance slot (balanced.holds_le there slot)
    have freed : effect.isBusy slot = false := free
    rw [busy, freed, Bool.toNat_true, Bool.toNat_false] at part
    have counts : 0 < (thread.phase.holds && thread.slot == slot).toNat := by omega
    rw [toNat_pos_iff, Bool.and_eq_true, beq_iff_eq] at counts
    exact ⟨.thread index, rfl, thread, there, counts⟩
  | aborts =>
    rw [isBusy_abort] at free
    exact absurd busy (ne_true_of_eq_false free)

/-- Whoever holds a marked slot after a step held it before, or is the thread that its holder
started. The claim stays with its race. -/
theorem Balanced.holds_before (balanced : Balanced m lost) (move : Move m event next)
    (busy : m.isBusy slot = true) {party : Party} (holds : next.Holds party slot) :
    ∃ former, m.Holds former slot ∧ m.raceOf former = next.raceOf party := by
  cases move with
  | arrives problem =>
    cases party with
    | call index =>
      obtain ⟨call, now, held⟩ := holds
      rw [List.getElem?_append] at now
      split at now
      · exact ⟨.call index, ⟨call, now, held⟩, rfl⟩
      · rw [List.getElem?_singleton] at now
        split at now
        · cases now
          cases held
        · cases now
    | thread index => exact ⟨.thread index, holds, rfl⟩
  | @ofCall index problem _ before effect after there move =>
    cases party with
    | call other =>
      obtain ⟨call, now, held⟩ := holds
      by_cases same : index = other
      · subst same
        rw [calls_setCall_self move.calls_eq there] at now
        cases now
        -- What the call holds now and did not hold before, it has just marked.
        have part := move.balance (balanced.count_le there) slot
        have threads := move.heldByThreads_le slot
        have most := Bool.toNat_le (effect.isBusy slot)
        have positive : 0 < after.held.count slot := List.count_pos_iff.mpr held
        rw [busy, Bool.toNat_true] at part
        have held : 0 < before.held.count slot := by omega
        exact ⟨.call index, ⟨_, there, List.count_pos_iff.mp held⟩, rfl⟩
      · rw [calls_setCall_ne move.calls_eq same] at now
        exact ⟨.call other, ⟨call, now, held⟩, rfl⟩
    | thread other =>
      obtain ⟨thread, now, holds, housed⟩ := holds
      change effect.threads[other]? = some thread at now
      change ∃ former, m.Holds former slot ∧ m.raceOf former = (effect.threads[other]?).map (·.call)
      rcases move.threads_cases with same | ⟨first, token, rest, _, _, _, _, rfl, rfl⟩
      · rw [same] at now ⊢
        exact ⟨.thread other, ⟨thread, now, holds, housed⟩, rfl⟩
      · rw [now]
        simp only [addThread] at now
        rw [List.getElem?_append] at now
        split at now
        · refine ⟨.thread other, ⟨thread, now, holds, housed⟩, ?_⟩
          simp only [raceOf, now]
        · rw [List.getElem?_singleton] at now
          split at now
          · cases now
            exact ⟨.call index, ⟨_, there, by simp [CallPhase.held, ← housed]⟩, rfl⟩
          · cases now
  | @ofThread index thread housed effect after there located move =>
    cases party with
    | call other =>
      obtain ⟨call, now, held⟩ := holds
      change effect.calls[other]? = some call at now
      rw [move.calls_eq] at now
      exact ⟨.call other, ⟨call, now, held⟩, rfl⟩
    | thread other =>
      obtain ⟨runner, now, holds, lives⟩ := holds
      by_cases same : index = other
      · subst same
        rw [threads_setThread_self move.threads_eq there] at now
        cases now
        have part := move.balance slot (balanced.holds_le there slot)
        have most := Bool.toNat_le (effect.isBusy slot)
        rw [show after.holds = true from holds, show thread.slot = slot from lives, busy] at part
        simp only [beq_self_eq_true, Bool.and_true, Bool.toNat_true] at part
        have counts : 0 < thread.phase.holds.toNat := by omega
        refine ⟨.thread index, ⟨thread, there, toNat_pos_iff.mp counts, lives⟩, ?_⟩
        simp only [raceOf, there, threads_setThread_self move.threads_eq there, Option.map_some]
      · rw [threads_setThread_ne move.threads_eq same] at now
        refine ⟨.thread other, ⟨runner, now, holds, lives⟩, ?_⟩
        simp only [raceOf, threads_setThread_ne move.threads_eq same]
  | aborts =>
    cases party with
    | call index =>
      obtain ⟨call, now, held⟩ := holds
      rw [calls_abort] at now
      exact ⟨.call index, ⟨call, now, held⟩, rfl⟩
    | thread index =>
      obtain ⟨thread, now, holds, housed⟩ := holds
      rw [threads_abort] at now
      refine ⟨.thread index, ⟨thread, now, holds, housed⟩, ?_⟩
      simp only [raceOf, threads_abort]

/-- The holder of a slot changes only within its race. -/
theorem Balanced.race_of_holds (balanced : Balanced m lost) (move : Move m event next)
    {former party : Party} (before : m.Holds former slot) (after : next.Holds party slot) :
    m.raceOf former = next.raceOf party := by
  obtain ⟨holder, holds, same⟩ :=
    balanced.holds_before move (balanced.busy_of_holds before).1 after
  rw [balanced.holder_unique before holds, same]

/-- A slot that is not marked is held by nobody, and nobody is inside its worker. -/
theorem Balanced.idle_of_free (balanced : Balanced m lost) (free : m.isBusy slot = false) :
    (∀ party, ¬ m.Holds party slot) ∧ m.isLocked slot = false := by
  have nobody (party : Party) : ¬ m.Holds party slot := fun holds =>
    absurd (balanced.busy_of_holds holds).1 (ne_true_of_eq_false free)
  exact ⟨nobody, balanced.not_locked fun index => nobody (.thread index)⟩

/-- A call that asks a worker is not kept waiting by a thread. -/
theorem Balanced.unlocked_of_asking (balanced : Balanced m lost) {index asked : Nat}
    {problem : D.Problem} {claimed : List Nat} {busy : Nat}
    (there : m.calls[index]? = some ⟨problem, .asking asked claimed busy⟩) :
    ∃ slot, m.slots[asked]? = some slot ∧ slot.locked = false := by
  have holds : m.Holds (.call index) asked :=
    ⟨_, there, List.mem_append_right _ (List.mem_singleton_self asked)⟩
  have unlocked := balanced.not_locked fun other held =>
    Party.noConfusion (balanced.holder_unique holds held)
  have marked := (balanced.busy_of_holds holds).1
  cases housed : m.slots[asked]? with
  | none => simp [isBusy, housed] at marked
  | some slot =>
    refine ⟨slot, rfl, ?_⟩
    simpa [isLocked, housed] using unlocked

end Step

end Machine

end MotionRace
