import Mathlib
import MotionRace.Proofs.Race.History

/-!
# Who holds a slot

A slot is marked as busy from the moment a race claims it until somebody marks it as free again. In
between the claim belongs to the call that made it, then to the thread that was started for it. A
call that a panic takes down in the middle of its claims leaves them behind, and so does a thread
that dies; nobody takes those back.

Main statement: `balanced_of_steps`. At every moment of every history the claims that calls hold,
the claims that threads hold and the claims left behind add up to one for a slot that is marked and
to none for a slot that is not. In the same way the threads inside a slot add up to its lock, and
the calls in flight to the racing flag.
-/

namespace MotionRace

variable {σ : Type} {D : Domain σ}

/-! ## Sums in which one entry changes -/

section Sums

variable {α : Type} (weight : α → Nat)

theorem sum_map_modify (change : α → α) {entries : List α} {index : Nat} {entry : α}
    (there : entries[index]? = some entry) :
    ((entries.modify index change).map weight).sum + weight entry =
      (entries.map weight).sum + weight (change entry) := by
  induction entries generalizing index with
  | nil => cases there
  | cons first rest ih =>
    cases index with
    | zero =>
      cases there
      simp only [List.modify_zero_cons, List.map_cons, List.sum_cons]
      omega
    | succ index =>
      have tail := ih there
      simp only [List.modify_succ_cons, List.map_cons, List.sum_cons]
      omega

theorem le_sum_map {entries : List α} {index : Nat} {entry : α}
    (there : entries[index]? = some entry) : weight entry ≤ (entries.map weight).sum :=
  List.le_sum_of_mem (List.mem_map_of_mem (List.mem_of_getElem? there))

/-- Two entries at different places both count. -/
theorem add_le_sum_map {entries : List α} {i j : Nat} {a b : α} (apart : i ≠ j)
    (first : entries[i]? = some a) (second : entries[j]? = some b) :
    weight a + weight b ≤ (entries.map weight).sum := by
  induction entries generalizing i j with
  | nil => cases first
  | cons entry rest ih =>
    simp only [List.map_cons, List.sum_cons]
    cases i with
    | zero =>
      cases j with
      | zero => exact absurd rfl apart
      | succ j =>
        cases first
        rw [List.getElem?_cons_succ] at second
        exact Nat.add_le_add_left (le_sum_map weight second) _
    | succ i =>
      rw [List.getElem?_cons_succ] at first
      cases j with
      | zero =>
        cases second
        rw [Nat.add_comm]
        exact Nat.add_le_add_left (le_sum_map weight first) _
      | succ j =>
        have tail := ih (fun same => apart (congrArg Nat.succ same)) first second
        omega

/-- What adds up to something has an entry that counts. -/
theorem exists_of_sum_map_pos {entries : List α} (positive : 0 < (entries.map weight).sum) :
    ∃ (index : Nat) (entry : α), entries[index]? = some entry ∧ 0 < weight entry := by
  obtain ⟨_, weighed, positive⟩ := List.sum_pos_iff_exists_pos_nat.mp positive
  obtain ⟨entry, listed, rfl⟩ := List.mem_map.mp weighed
  obtain ⟨index, there⟩ := List.getElem?_of_mem listed
  exact ⟨index, entry, there, positive⟩

end Sums

/-- A mark counts exactly when it is set. -/
theorem toNat_pos_iff {mark : Bool} : 0 < mark.toNat ↔ mark = true := by
  cases mark <;> simp

/-! ## Claims, locks and flights -/

/-- The slots that a call in a phase holds claimed. -/
def CallPhase.held : CallPhase D → List Nat
  | .claiming _ claimed _ => claimed
  | .asking next claimed _ => claimed ++ [next]
  | .registering claimed => claimed
  | .registered claimed _ => claimed.map (·.1)
  | .handingBack rest => rest
  | .launching rest .. => rest.map (·.1)
  | _ => []

/-- Whether a call has the racing flag in a phase: from the moment it took it until it gave it
back. -/
def CallPhase.inFlight : CallPhase D → Bool
  | .arriving => false
  | .ended _ => false
  | _ => true

/-- The slots that a call leaves behind when it goes from one phase to another: all that it held, if
a panic took it down. -/
def CallPhase.forsakes (before : CallPhase D) : (after : CallPhase D) → List Nat
  | .leaving (.panicked _) => before.held
  | _ => []

/-- Whether a thread in a phase has yet to mark its slot as free. A thread that died never does. -/
def ThreadPhase.holds : ThreadPhase D → Bool
  | .starting => true
  | .running _ => true
  | .unlocked _ => true
  | .died _ => true
  | _ => false

/-- Whether a thread in a phase is inside the worker of its slot. -/
def ThreadPhase.inside : ThreadPhase D → Bool
  | .running _ => true
  | _ => false

namespace Machine

/-- Whether a slot is marked as claimed. -/
def isBusy (m : Machine D) (slot : Nat) : Bool := (m.slots[slot]?).any (·.busy)

/-- Whether the worker of a slot is locked. -/
def isLocked (m : Machine D) (slot : Nat) : Bool := (m.slots[slot]?).any (·.locked)

/-- How often calls hold a slot. -/
def heldByCalls (m : Machine D) (slot : Nat) : Nat :=
  (m.calls.map fun c => c.phase.held.count slot).sum

/-- How many threads have yet to free a slot. -/
def heldByThreads (m : Machine D) (slot : Nat) : Nat :=
  (m.threads.map fun t => (t.phase.holds && t.slot == slot).toNat).sum

/-- How many threads are inside the worker of a slot. -/
def insiders (m : Machine D) (slot : Nat) : Nat :=
  (m.threads.map fun t => (t.phase.inside && t.slot == slot).toNat).sum

/-- How many calls have the racing flag. -/
def flights (m : Machine D) : Nat := (m.calls.map fun c => c.phase.inFlight.toNat).sum

/-- The slots that an event leaves behind with nobody to free them. -/
def forsaken (m : Machine D) (event : Event D) (next : Machine D) : List Nat :=
  match event with
  | .call index => (m.phaseOf index).forsakes (next.phaseOf index)
  | _ => []

@[simp] theorem isBusy_setBusy (m : Machine D) (slot other : Nat) (busy : Bool) :
    (m.setBusy slot busy).isBusy other =
      if slot = other then (m.slots[other]?).isSome && busy else m.isBusy other := by
  simp only [isBusy, setBusy, List.getElem?_modify]
  by_cases same : slot = other <;> cases m.slots[other]? <;> simp [same]

@[simp] theorem isBusy_setLocked (m : Machine D) (slot other : Nat) (locked : Bool) :
    (m.setLocked slot locked).isBusy other = m.isBusy other := by
  simp only [isBusy, setLocked, List.getElem?_modify]
  by_cases same : slot = other <;> cases m.slots[other]? <;> simp [same]

@[simp] theorem isBusy_setWorker (m : Machine D) (slot other : Nat) (worker : Worker D) :
    (m.setWorker slot worker).isBusy other = m.isBusy other := by
  simp only [isBusy, setWorker, List.getElem?_modify]
  by_cases same : slot = other <;> cases m.slots[other]? <;> simp [same]

@[simp] theorem isBusy_abort (m : Machine D) (slot : Nat) :
    m.abort.2.isBusy slot = m.isBusy slot := by
  simp only [isBusy, slots_abort]

@[simp] theorem isLocked_setLocked (m : Machine D) (slot other : Nat) (locked : Bool) :
    (m.setLocked slot locked).isLocked other =
      if slot = other then (m.slots[other]?).isSome && locked else m.isLocked other := by
  simp only [isLocked, setLocked, List.getElem?_modify]
  by_cases same : slot = other <;> cases m.slots[other]? <;> simp [same]

@[simp] theorem isLocked_setBusy (m : Machine D) (slot other : Nat) (busy : Bool) :
    (m.setBusy slot busy).isLocked other = m.isLocked other := by
  simp only [isLocked, setBusy, List.getElem?_modify]
  by_cases same : slot = other <;> cases m.slots[other]? <;> simp [same]

@[simp] theorem isLocked_setWorker (m : Machine D) (slot other : Nat) (worker : Worker D) :
    (m.setWorker slot worker).isLocked other = m.isLocked other := by
  simp only [isLocked, setWorker, List.getElem?_modify]
  by_cases same : slot = other <;> cases m.slots[other]? <;> simp [same]

/-! ## What a move does to them -/

section Moves

variable {m effect next : Machine D} {index slot : Nat} {problem : D.Problem} {event : Event D}
  {before after : CallPhase D}

theorem heldByCalls_setCall (same : effect.calls = m.calls)
    (there : m.calls[index]? = some ⟨problem, before⟩) (after : CallPhase D) (slot : Nat) :
    (effect.setCall index after).heldByCalls slot + before.held.count slot =
      m.heldByCalls slot + after.held.count slot := by
  simp only [heldByCalls, setCall, same]
  exact sum_map_modify (fun c => c.phase.held.count slot) (fun c => { c with phase := after }) there

theorem flights_setCall (same : effect.calls = m.calls)
    (there : m.calls[index]? = some ⟨problem, before⟩) (after : CallPhase D) :
    (effect.setCall index after).flights + before.inFlight.toNat =
      m.flights + after.inFlight.toNat := by
  simp only [flights, setCall, same]
  exact sum_map_modify (fun c => c.phase.inFlight.toNat) (fun c => { c with phase := after }) there

theorem length_freshMany (flags : Flags) (count : Nat) :
    (flags.freshMany count).1.length = count := by
  induction count generalizing flags with
  | zero => rfl
  | succ count ih => simp only [Flags.freshMany, List.length_cons, ih]

@[simp] theorem length_newTokens (m : Machine D) (count : Nat) :
    (m.newTokens count).length = count :=
  length_freshMany m.flags count

/-- A slot that was registered is a slot that was claimed. -/
theorem map_fst_zip_newTokens (m : Machine D) (claimed : List Nat) :
    (claimed.zip (m.newTokens claimed.length)).map (·.1) = claimed :=
  List.map_fst_zip (Nat.le_of_eq (length_newTokens m claimed.length).symm)

@[simp] theorem held_afterClaims (claimed : List Nat) (busy : Nat) :
    (afterClaims claimed busy : CallPhase D).held = claimed := by
  cases claimed <;> cases busy <;> rfl

@[simp] theorem forsakes_afterClaims (before : CallPhase D) (claimed : List Nat) (busy : Nat) :
    before.forsakes (afterClaims claimed busy) = [] := by
  cases claimed <;> cases busy <;> rfl

@[simp] theorem inFlight_afterClaims (claimed : List Nat) (busy : Nat) :
    (afterClaims claimed busy : CallPhase D).inFlight = true := by
  cases claimed <;> cases busy <;> rfl

@[simp] theorem heldByThreads_setBusy (m : Machine D) (slot other : Nat) (busy : Bool) :
    (m.setBusy slot busy).heldByThreads other = m.heldByThreads other := rfl

@[simp] theorem heldByThreads_afterAsking (m : Machine D) (entry : Slot D) (problem : D.Problem)
    (slot : Nat) : (m.afterAsking entry problem).heldByThreads slot = m.heldByThreads slot := rfl

@[simp] theorem isBusy_afterAsking (m : Machine D) (entry : Slot D) (problem : D.Problem)
    (slot : Nat) : (m.afterAsking entry problem).isBusy slot = m.isBusy slot := rfl

@[simp] theorem isBusy_addThread (m : Machine D) (thread : Thread D) (slot : Nat) :
    (m.addThread thread).isBusy slot = m.isBusy slot := rfl

theorem heldByThreads_addThread (m : Machine D) (thread : Thread D) (slot : Nat) :
    (m.addThread thread).heldByThreads slot =
      m.heldByThreads slot + (thread.phase.holds && thread.slot == slot).toNat := by
  simp only [heldByThreads, addThread, List.map_append, List.sum_append, List.map_cons,
    List.map_nil, List.sum_cons, List.sum_nil, Nat.add_zero]

/-- A move of a call hands a claim to nobody but a new thread, marks what it claims and frees what
it lets go of. -/
theorem CallMove.balance (move : CallMove m index problem event before effect after)
    (marked : ∀ slot, before.held.count slot ≤ (m.isBusy slot).toNat) (slot : Nat) :
    after.held.count slot + effect.heldByThreads slot + (before.forsakes after).count slot +
        (m.isBusy slot).toNat =
      before.held.count slot + m.heldByThreads slot + (effect.isBusy slot).toNat := by
  have own := marked slot
  have most := Bool.toNat_le (m.isBusy slot)
  cases move with
  | turnedAway | begins | beginsAtOnce | waited | expires | passesOver | undecided | goesAhead
    | handedBack | launched | collects | loses | decides | signals | leaves => rfl
  | claimsOver =>
    rw [held_afterClaims, forsakes_afterClaims]
    rfl
  | @claims next claimed busy entry there free =>
    by_cases same : next = slot
    · subst same
      have idle : m.isBusy next = false := by simp [isBusy, there, free]
      simp [CallPhase.held, CallPhase.forsakes, there, idle]
      omega
    · simp [CallPhase.held, CallPhase.forsakes, same]
  | accepted =>
    simp only [CallPhase.held, CallPhase.forsakes, heldByThreads_afterAsking, isBusy_afterAsking,
      List.count_nil]
    rfl
  | @declined next =>
    by_cases same : next = slot
    · subst same
      simp [CallPhase.held, CallPhase.forsakes] at own most ⊢
      omega
    · simp [CallPhase.held, CallPhase.forsakes, same]
  | panics =>
    simp [CallPhase.held, CallPhase.forsakes]
    omega
  | registers =>
    simp only [CallPhase.held, CallPhase.forsakes, map_fst_zip_newTokens]
    rfl
  | calledOff => rfl
  | @handsBack first rest =>
    by_cases same : first = slot
    · subst same
      simp [CallPhase.held, CallPhase.forsakes] at own most ⊢
      omega
    · simp [CallPhase.held, CallPhase.forsakes, same]
  | @launches first token rest =>
    rw [heldByThreads_addThread]
    by_cases same : first = slot
    · simp [CallPhase.held, CallPhase.forsakes, same, ThreadPhase.holds]
      omega
    · simp [CallPhase.held, CallPhase.forsakes, same, ThreadPhase.holds]
  | @notStarted first token rest =>
    by_cases same : first = slot
    · subst same
      simp [CallPhase.held, CallPhase.forsakes] at own most ⊢
      omega
    · simp [CallPhase.held, CallPhase.forsakes, same]

/-- A move of a call takes no claim from a thread. -/
theorem CallMove.heldByThreads_le (move : CallMove m index problem event before effect after)
    (slot : Nat) : m.heldByThreads slot ≤ effect.heldByThreads slot := by
  rcases move.threads_cases with same | ⟨_, _, _, _, _, _, _, -, rfl⟩
  · simp only [heldByThreads, same, Nat.le_refl]
  · rw [heldByThreads_addThread]
    exact Nat.le_add_right ..

/-- A move of a call neither locks a worker nor unlocks one. -/
theorem CallMove.isLocked_eq (move : CallMove m index problem event before effect after)
    (slot : Nat) : effect.isLocked slot = m.isLocked slot := by
  cases move with
  | claims | handsBack | notStarted => exact isLocked_setBusy ..
  | declined => exact isLocked_setBusy ..
  | _ => rfl

/-- A move of a call sends nobody into a worker. -/
theorem CallMove.insiders_eq (move : CallMove m index problem event before effect after)
    (slot : Nat) : effect.insiders slot = m.insiders slot := by
  cases move with
  | launches =>
    simp only [insiders, addThread, List.map_append, List.sum_append, List.map_cons, List.map_nil,
      ThreadPhase.inside, Bool.false_and, Bool.toNat_false, List.sum_cons, List.sum_nil,
      Nat.add_zero]
  | _ => rfl

/-- The racing flag goes up when a call takes off and down when it lands. -/
theorem CallMove.flight (move : CallMove m index problem event before effect after)
    (counted : before.inFlight.toNat ≤ m.flight.racing.toNat) :
    after.inFlight.toNat + m.flight.racing.toNat =
      before.inFlight.toNat + effect.flight.racing.toNat := by
  cases move with
  | begins idle | beginsAtOnce idle => simp [CallPhase.inFlight, idle, beginFlight]
  | claimsOver => rw [inFlight_afterClaims]; rfl
  | leaves =>
    have most := Bool.toNat_le m.flight.racing
    simp only [CallPhase.inFlight, Bool.toNat_true, Bool.toNat_false, endFlight] at counted most ⊢
    omega
  | _ => rfl

variable {thread : Thread D} {housed : Slot D} {phase later : ThreadPhase D}

theorem heldByThreads_setThread (same : effect.threads = m.threads)
    (there : m.threads[index]? = some thread) (later : ThreadPhase D) (slot : Nat) :
    (effect.setThread index later).heldByThreads slot +
        (thread.phase.holds && thread.slot == slot).toNat =
      m.heldByThreads slot + (later.holds && thread.slot == slot).toNat := by
  simp only [heldByThreads, setThread, same]
  exact sum_map_modify (fun t => (t.phase.holds && t.slot == slot).toNat)
    (fun t => { t with phase := later }) there

theorem insiders_setThread (same : effect.threads = m.threads)
    (there : m.threads[index]? = some thread) (later : ThreadPhase D) (slot : Nat) :
    (effect.setThread index later).insiders slot +
        (thread.phase.inside && thread.slot == slot).toNat =
      m.insiders slot + (later.inside && thread.slot == slot).toNat := by
  simp only [insiders, setThread, same]
  exact sum_map_modify (fun t => (t.phase.inside && t.slot == slot).toNat)
    (fun t => { t with phase := later }) there

/-- A thread lets go of its claim when it marks its slot as free, and at no other time. -/
theorem ThreadMove.balance (move : ThreadMove m index thread housed phase effect later) (slot : Nat)
    (marked : (phase.holds && thread.slot == slot).toNat ≤ (m.isBusy slot).toNat) :
    (later.holds && thread.slot == slot).toNat + (m.isBusy slot).toNat =
      (phase.holds && thread.slot == slot).toNat + (effect.isBusy slot).toNat := by
  cases move with
  | frees =>
    by_cases same : thread.slot = slot
    · cases busy : m.isBusy slot with
      | true => simp [ThreadPhase.holds, same]
      | false => simp [ThreadPhase.holds, same, busy] at marked
    · simp [ThreadPhase.holds, same]
  | locks | finishes | dies => rw [isBusy_setLocked]; rfl
  | runs => rw [isBusy_setWorker]; rfl
  | logs | reports => rfl

/-- A thread locks a worker when it goes in and unlocks it when it comes out. -/
theorem ThreadMove.locking (move : ThreadMove m index thread housed phase effect later)
    (there : m.slots[thread.slot]? = some housed) (slot : Nat)
    (counted : (phase.inside && thread.slot == slot).toNat ≤ (m.isLocked slot).toNat) :
    (later.inside && thread.slot == slot).toNat + (m.isLocked slot).toNat =
      (phase.inside && thread.slot == slot).toNat + (effect.isLocked slot).toNat := by
  by_cases same : thread.slot = slot
  · subst same
    cases move with
    | locks unlocked =>
      have idle : m.isLocked thread.slot = false := by simp [isLocked, there, unlocked]
      simp [ThreadPhase.inside, there, idle]
    | finishes | dies =>
      cases locked : m.isLocked thread.slot with
      | true => simp [ThreadPhase.inside]
      | false => simp [ThreadPhase.inside, locked] at counted
    | frees => rw [isLocked_setBusy]; rfl
    | runs => rw [isLocked_setWorker]; rfl
    | logs | reports => rfl
  · cases move <;> simp [ThreadPhase.inside, same] <;> rfl

end Moves

/-! ## The balance -/

/-- What adds up at every moment. The slots in `lost` are those that were left behind. -/
structure Balanced (m : Machine D) (lost : List Nat) : Prop where
  claims : ∀ slot, m.heldByCalls slot + m.heldByThreads slot + lost.count slot =
    (m.isBusy slot).toNat
  locks : ∀ slot, m.insiders slot = (m.isLocked slot).toNat
  flight : m.flights = m.flight.racing.toNat

section Parts

variable {m : Machine D} {lost : List Nat} {index : Nat} {problem : D.Problem}
  {phase : CallPhase D} {thread : Thread D}

/-- The claims of a call are marked. -/
theorem Balanced.count_le (balanced : Balanced m lost)
    (there : m.calls[index]? = some ⟨problem, phase⟩) (slot : Nat) :
    phase.held.count slot ≤ (m.isBusy slot).toNat := by
  have part : phase.held.count slot ≤ m.heldByCalls slot :=
    le_sum_map (fun c : Call D => c.phase.held.count slot) there
  have whole := balanced.claims slot
  omega

/-- The claim of a thread is marked. -/
theorem Balanced.holds_le (balanced : Balanced m lost)
    (there : m.threads[index]? = some thread) (slot : Nat) :
    (thread.phase.holds && thread.slot == slot).toNat ≤ (m.isBusy slot).toNat := by
  have part : (thread.phase.holds && thread.slot == slot).toNat ≤ m.heldByThreads slot :=
    le_sum_map (fun t : Thread D => (t.phase.holds && t.slot == slot).toNat) there
  have whole := balanced.claims slot
  omega

/-- A thread is inside a locked worker only. -/
theorem Balanced.inside_le (balanced : Balanced m lost)
    (there : m.threads[index]? = some thread) (slot : Nat) :
    (thread.phase.inside && thread.slot == slot).toNat ≤ (m.isLocked slot).toNat := by
  rw [← balanced.locks slot]
  exact le_sum_map (fun t : Thread D => (t.phase.inside && t.slot == slot).toNat) there

/-- A call in flight keeps the racing flag up. -/
theorem Balanced.inFlight_le (balanced : Balanced m lost)
    (there : m.calls[index]? = some ⟨problem, phase⟩) :
    phase.inFlight.toNat ≤ m.flight.racing.toNat := by
  rw [← balanced.flight]
  exact le_sum_map (fun c : Call D => c.phase.inFlight.toNat) there

end Parts

/-- What a call's move leaves behind. -/
theorem forsaken_call {m effect : Machine D} {index : Nat} {problem : D.Problem} {event : Event D}
    {before after : CallPhase D} (there : m.calls[index]? = some ⟨problem, before⟩)
    (move : CallMove m index problem event before effect after) :
    m.forsaken event (effect.setCall index after) = before.forsakes after := by
  have now := phaseOf_setCall_self move.calls_eq there after
  cases move with
  | expires | notStarted => rfl
  | _ => simp only [forsaken, phaseOf_eq there, now]

theorem Balanced.move {m next : Machine D} {lost : List Nat} {event : Event D}
    (balanced : Balanced m lost) (move : Move m event next) :
    Balanced next (lost ++ m.forsaken event next) := by
  cases move with
  | arrives problem =>
    have nothing : m.forsaken (.arrive problem) { m with calls := m.calls ++ [{ problem }] } = [] :=
      rfl
    rw [nothing, List.append_nil]
    refine ⟨fun slot => ?_, balanced.locks, ?_⟩
    · have calls : ({ m with calls := m.calls ++ [{ problem }] } : Machine D).heldByCalls slot =
          m.heldByCalls slot := by
        simp [heldByCalls, CallPhase.held]
      rw [calls]
      exact balanced.claims slot
    · have calls : ({ m with calls := m.calls ++ [{ problem }] } : Machine D).flights =
          m.flights := by
        simp [flights, CallPhase.inFlight]
      rw [calls]
      exact balanced.flight
  | @ofCall index problem _ before effect after there move =>
    refine ⟨fun slot => ?_, fun slot => ?_, ?_⟩
    · -- The other calls hold what they held, so the balance of the move is that of the whole.
      have whole := balanced.claims slot
      have part := move.balance (balanced.count_le there) slot
      have calls := heldByCalls_setCall move.calls_eq there after slot
      change (effect.setCall index after).heldByCalls slot + effect.heldByThreads slot + _ =
        (effect.isBusy slot).toNat
      rw [forsaken_call there move, List.count_append]
      omega
    · exact (move.insiders_eq slot).trans
        ((balanced.locks slot).trans (congrArg Bool.toNat (move.isLocked_eq slot).symm))
    · have whole := balanced.flight
      have part := move.flight (balanced.inFlight_le there)
      have calls := flights_setCall move.calls_eq there after
      change (effect.setCall index after).flights = effect.flight.racing.toNat
      omega
  | @ofThread index thread housed effect after there located move =>
    have nothing : m.forsaken (.thread index) (effect.setThread index after) = [] := rfl
    rw [nothing, List.append_nil]
    refine ⟨fun slot => ?_, fun slot => ?_, ?_⟩
    · have whole := balanced.claims slot
      have threads := heldByThreads_setThread move.threads_eq there after slot
      have part := move.balance slot (balanced.holds_le there slot)
      have calls : (effect.setThread index after).heldByCalls slot = m.heldByCalls slot := by
        simp only [heldByCalls, setThread, move.calls_eq]
      change _ + _ + _ = (effect.isBusy slot).toNat
      omega
    · have whole := balanced.locks slot
      have threads := insiders_setThread move.threads_eq there after slot
      have part := move.locking located slot (balanced.inside_le there slot)
      change _ = (effect.isLocked slot).toNat
      omega
    · have flight := balanced.flight
      simpa only [flights, setThread, move.calls_eq, move.flight_eq] using flight
  | aborts =>
    have nothing : m.forsaken .abort m.abort.2 = [] := rfl
    rw [nothing, List.append_nil]
    refine ⟨fun slot => ?_, fun slot => ?_, ?_⟩
    · simpa only [heldByCalls, heldByThreads, calls_abort, threads_abort, isBusy_abort] using
        balanced.claims slot
    · simpa only [insiders, isLocked, threads_abort, slots_abort] using balanced.locks slot
    · simpa only [flights, calls_abort, flight_abort] using balanced.flight

theorem balanced_ofWorkers (workers : List (Worker D)) (waits : Waits) (logs : Bool) (shared : σ) :
    Balanced (ofWorkers workers waits logs shared) [] where
  claims slot := by
    have free : (ofWorkers workers waits logs shared).isBusy slot = false := by
      simp only [isBusy, ofWorkers, List.getElem?_map]
      cases workers[slot]? <;> rfl
    rw [free]
    rfl
  locks slot := by
    have unlocked : (ofWorkers workers waits logs shared).isLocked slot = false := by
      simp only [isLocked, ofWorkers, List.getElem?_map]
      cases workers[slot]? <;> rfl
    rw [unlocked]
    rfl
  flight := rfl

/-- What adds up stays so. -/
theorem Balanced.steps {start m : Machine D} {lost : List Nat} {events : List (Event D)}
    (balanced : Balanced start lost) (run : start.steps events = some m) :
    Balanced m (lost ++ start.record forsaken events) := by
  induction events, m, run using steps_induction with
  | nothing =>
    rw [record_nil, List.append_nil]
    exact balanced
  | more events m event next run step ih =>
    rw [record_concat run step, ← List.append_assoc]
    exact ih.move (move_of_step step)

/-- Claims, locks and the racing flag are accounted for at every moment of every history. -/
theorem balanced_of_steps {workers : List (Worker D)} {waits : Waits} {logs : Bool} {shared : σ}
    {events : List (Event D)} {m : Machine D}
    (run : (ofWorkers workers waits logs shared).steps events = some m) :
    Balanced m ((ofWorkers workers waits logs shared).record forsaken events) :=
  (balanced_ofWorkers workers waits logs shared).steps run

end Machine

end MotionRace
