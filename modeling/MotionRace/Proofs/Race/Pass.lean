import MotionRace.Proofs.Race.Collecting
import MotionRace.Proofs.Race.Holders

/-!
# The pass over the slots

A call looks at every slot of the pool once, in pool order. A slot that is marked it passes over; a
slot that is free it wins, asks the worker, and keeps the slot if the worker takes the problem on.
What the phase of a call says about its pass is compared here with what happened: the slots that it
asked, kept and passed over according to the history.

Main statement: `accounts_of_steps`. It gives how a call that keeps nothing ends, and how one that
keeps something does not.
-/

namespace MotionRace

variable {σ : Type} {D : Domain σ}

/-! ## What a call does with a slot -/

/-- The slot that a call wins, to ask its worker. -/
def CallPhase.asks : (before after : CallPhase D) → List Nat
  | .claiming slot _ _, .asking .. => [slot]
  | _, _ => []

/-- The slot that a call keeps after it asked the worker. -/
def CallPhase.keeps : (before after : CallPhase D) → List Nat
  | .asking _ claimed _, .claiming _ now _ => now.drop claimed.length
  | _, _ => []

/-- The slot that a call finds marked and passes over. -/
def CallPhase.passes : (before after : CallPhase D) → List Nat
  | .claiming slot _ _, .claiming .. => [slot]
  | _, _ => []

/-- The first slots of a pool are dealt with: each was asked or passed over, once and in pool order,
and the slots that were kept are among those that were asked. -/
structure Dealt (slots : Nat) (asked kept passed : List Nat) : Prop where
  each : (asked ++ passed).Perm (List.range slots)
  ordered : asked.Pairwise (· < ·)
  among : kept.Sublist asked

namespace Dealt

variable {slots : Nat} {asked kept passed : List Nat}

theorem nothing : Dealt 0 [] [] [] := ⟨.refl _, .nil, .refl _⟩

theorem mem_iff (dealt : Dealt slots asked kept passed) {slot : Nat} :
    slot < slots ↔ slot ∈ asked ∨ slot ∈ passed := by
  rw [← List.mem_range, ← dealt.each.mem_iff, List.mem_append]

theorem nodup_passed (dealt : Dealt slots asked kept passed) : passed.Nodup :=
  (List.nodup_append.mp (dealt.each.nodup_iff.mpr List.nodup_range)).2.1

theorem pass (dealt : Dealt slots asked kept passed) :
    Dealt (slots + 1) asked kept (passed ++ [slots]) where
  each := by
    rw [List.range_succ, ← List.append_assoc]
    exact dealt.each.append_right _
  ordered := dealt.ordered
  among := dealt.among

theorem decline (dealt : Dealt slots asked kept passed) :
    Dealt (slots + 1) (asked ++ [slots]) kept passed where
  each := by
    rw [List.range_succ, List.append_assoc]
    refine .trans ?_ (dealt.each.append_right _)
    rw [List.append_assoc]
    exact List.perm_append_comm.append_left _
  ordered := by
    refine List.pairwise_append.mpr ⟨dealt.ordered, List.pairwise_singleton .., ?_⟩
    intro slot asked last same
    rw [List.mem_singleton.mp same]
    exact dealt.mem_iff.mpr (.inl asked)
  among := dealt.among.trans (List.sublist_append_left ..)

theorem keep (dealt : Dealt slots asked kept passed) :
    Dealt (slots + 1) (asked ++ [slots]) (kept ++ [slots]) passed :=
  { dealt.decline with among := dealt.among.append (.refl _) }

end Dealt

/-- What an ending says of the pass before it. One that a panic cut short says nothing. -/
def Ending.Accounts {α : Type} (slots : Nat) (asked kept passed : List Nat) : Ending α → Prop
  | .refused .alreadyRacing => asked = [] ∧ kept = [] ∧ passed = []
  | .refused (.workersBusy busy) =>
    Dealt slots asked kept passed ∧ kept = [] ∧ busy = passed.length ∧ 0 < busy
  | .outcome .noneEligible => Dealt slots asked kept passed ∧ kept = [] ∧ passed = []
  | .outcome _ => Dealt slots asked kept passed ∧ kept ≠ []
  | .panicked _ => True

/-- What the phase of a call says of its pass over a pool of so many slots. -/
def CallPhase.Accounts (slots : Nat) (asked kept passed : List Nat) : CallPhase D → Prop
  | .arriving => asked = [] ∧ kept = [] ∧ passed = []
  | .waiting => asked = [] ∧ kept = [] ∧ passed = []
  | .claiming next claimed busy =>
    Dealt next asked kept passed ∧ next ≤ slots ∧ claimed = kept ∧ busy = passed.length
  | .asking next claimed busy =>
    (∃ former, asked = former ++ [next] ∧ Dealt next former kept passed) ∧ next < slots ∧
      claimed = kept ∧ busy = passed.length
  | .registering claimed => Dealt slots asked kept passed ∧ claimed = kept ∧ kept ≠ []
  | .registered claimed _ =>
    Dealt slots asked kept passed ∧ claimed.map (·.1) = kept ∧ kept ≠ []
  | .handingBack _ => Dealt slots asked kept passed ∧ kept ≠ []
  | .launching .. => Dealt slots asked kept passed ∧ kept ≠ []
  | .collecting .. => Dealt slots asked kept passed ∧ kept ≠ []
  | .signalling outcome => Dealt slots asked kept passed ∧ kept ≠ [] ∧ outcome ≠ .noneEligible
  | .leaving ending => ending.Accounts slots asked kept passed
  | .ended ending => ending.Accounts slots asked kept passed

namespace Machine

/-- What the party of an event yields when it goes from one phase to another, if it is the call of
an index. -/
def transition {α : Type} (yield : (before after : CallPhase D) → List α) (index : Nat)
    (m : Machine D) (event : Event D) (next : Machine D) : List α :=
  if event.party? = some (.call index) then yield (m.phaseOf index) (next.phaseOf index) else []

/-- The slots whose workers a call asks in a history. -/
def askedBy (start : Machine D) (index : Nat) (events : List (Event D)) : List Nat :=
  start.record (transition CallPhase.asks index) events

/-- The slots that a call keeps in a history, because their workers take its problem on. -/
def keptBy (start : Machine D) (index : Nat) (events : List (Event D)) : List Nat :=
  start.record (transition CallPhase.keeps index) events

/-- The slots that a call finds marked in a history. -/
def passedBy (start : Machine D) (index : Nat) (events : List (Event D)) : List Nat :=
  start.record (transition CallPhase.passes index) events

/-! ## Moves -/

section Moves

variable {m effect next : Machine D} {index slot : Nat} {problem : D.Problem} {event : Event D}
  {before after : CallPhase D} {asked kept passed : List Nat}

theorem transition_own {α : Type} {yield : (before after : CallPhase D) → List α}
    (there : m.calls[index]? = some ⟨problem, before⟩)
    (move : CallMove m index problem event before effect after) :
    m.transition yield index event (effect.setCall index after) = yield before after := by
  rw [transition, if_pos move.party_eq, phaseOf_eq there, phaseOf_setCall_self move.calls_eq there]

theorem transition_other {α : Type} {yield : (before after : CallPhase D) → List α}
    (other : event.party? ≠ some (.call index)) : m.transition yield index event next = [] :=
  if_neg other

@[simp] theorem asks_afterClaims (before : CallPhase D) (claimed : List Nat) (busy : Nat) :
    before.asks (afterClaims claimed busy) = [] := by
  cases before <;> cases claimed <;> cases busy <;> rfl

@[simp] theorem keeps_afterClaims (before : CallPhase D) (claimed : List Nat) (busy : Nat) :
    before.keeps (afterClaims claimed busy) = [] := by
  cases before <;> cases claimed <;> cases busy <;> rfl

@[simp] theorem passes_afterClaims (before : CallPhase D) (claimed : List Nat) (busy : Nat) :
    before.passes (afterClaims claimed busy) = [] := by
  cases before <;> cases claimed <;> cases busy <;> rfl

/-- A call that looked at every slot is right about what it found. -/
theorem accounts_afterClaims {slots : Nat} (dealt : Dealt slots asked kept passed) :
    (afterClaims kept passed.length : CallPhase D).Accounts slots asked kept passed := by
  cases kept with
  | nil =>
    cases passed with
    | nil => exact ⟨dealt, rfl, rfl⟩
    | cons first rest => exact ⟨dealt, rfl, rfl, Nat.succ_pos _⟩
  | cons first rest => exact ⟨dealt, rfl, nofun⟩

/-- A move of a call keeps its account true. -/
theorem CallMove.accounts (move : CallMove m index problem event before effect after)
    (account : before.Accounts m.slots.length asked kept passed) :
    after.Accounts m.slots.length (asked ++ before.asks after) (kept ++ before.keeps after)
      (passed ++ before.passes after) := by
  cases move with
  | @claimsOver next claimed busy beyond =>
    obtain ⟨dealt, within, rfl, rfl⟩ := account
    have whole := Nat.le_antisymm within (List.getElem?_eq_none_iff.mp beyond)
    subst whole
    simp only [asks_afterClaims, keeps_afterClaims, passes_afterClaims, List.append_nil]
    exact accounts_afterClaims dealt
  | @passesOver next claimed busy entry there taken =>
    obtain ⟨dealt, within, rfl, rfl⟩ := account
    have below := (List.getElem?_eq_some_iff.mp there).1
    simp only [CallPhase.asks, CallPhase.keeps, CallPhase.passes, List.append_nil]
    exact ⟨dealt.pass, below, rfl, by rw [List.length_append, List.length_singleton]⟩
  | @claims next claimed busy entry there free =>
    obtain ⟨dealt, within, rfl, rfl⟩ := account
    have below := (List.getElem?_eq_some_iff.mp there).1
    simp only [CallPhase.asks, CallPhase.keeps, CallPhase.passes, List.append_nil]
    exact ⟨⟨asked, rfl, dealt⟩, below, rfl, rfl⟩
  | @accepted next claimed busy =>
    obtain ⟨⟨former, rfl, dealt⟩, below, rfl, rfl⟩ := account
    simp only [CallPhase.asks, CallPhase.keeps, CallPhase.passes, List.append_nil,
      List.drop_left]
    exact ⟨dealt.keep, below, rfl, rfl⟩
  | @declined next claimed busy =>
    obtain ⟨⟨former, rfl, dealt⟩, below, rfl, rfl⟩ := account
    simp only [CallPhase.asks, CallPhase.keeps, CallPhase.passes, List.append_nil,
      List.drop_length]
    exact ⟨dealt.decline, below, rfl, rfl⟩
  | panics => trivial
  | beginsAtOnce | waited | expires =>
    obtain ⟨rfl, rfl, rfl⟩ := account
    exact ⟨Dealt.nothing, Nat.zero_le _, rfl, rfl⟩
  | registers =>
    obtain ⟨dealt, rfl, kept_ne_nil⟩ := account
    simp only [CallPhase.asks, CallPhase.keeps, CallPhase.passes, List.append_nil]
    exact ⟨dealt, map_fst_zip_newTokens m _, kept_ne_nil⟩
  | calledOff | goesAhead =>
    obtain ⟨dealt, rfl, kept_ne_nil⟩ := account
    simp only [CallPhase.asks, CallPhase.keeps, CallPhase.passes, List.append_nil]
    exact ⟨dealt, kept_ne_nil⟩
  | @decides c abort outcome decided =>
    simp only [CallPhase.asks, CallPhase.keeps, CallPhase.passes, List.append_nil]
    exact ⟨account.1, account.2, Collector.ne_noneEligible_of_decided decided⟩
  | @signals outcome =>
    obtain ⟨dealt, kept_ne_nil, other⟩ := account
    simp only [CallPhase.asks, CallPhase.keeps, CallPhase.passes, List.append_nil]
    cases outcome with
    | noneEligible => exact absurd rfl other
    | _ => exact ⟨dealt, kept_ne_nil⟩
  | turnedAway | begins | handedBack | handsBack | launched | launches | notStarted | collects
    | loses | leaves | undecided =>
    simp only [CallPhase.asks, CallPhase.keeps, CallPhase.passes, List.append_nil]
    exact account

theorem CallMove.length_slots (move : CallMove m index problem event before effect after) :
    effect.slots.length = m.slots.length := by
  cases move with
  | claims | declined | handsBack | notStarted => exact List.length_modify ..
  | _ => rfl

theorem ThreadMove.length_slots {thread : Thread D} {housed : Slot D} {phase later : ThreadPhase D}
    (move : ThreadMove m index thread housed phase effect later) :
    effect.slots.length = m.slots.length := by
  cases move with
  | logs | reports => rfl
  | _ => exact List.length_modify ..

/-- The pool keeps its size. -/
theorem Move.length_slots (move : Move m event next) : next.slots.length = m.slots.length := by
  cases move with
  | arrives => rfl
  | ofCall there move => exact move.length_slots
  | ofThread there housed move => exact move.length_slots
  | aborts => rw [slots_abort]

/-- Only its own moves take a call to another phase. -/
theorem Move.phaseOf_eq (move : Move m event next)
    (other : event.party? ≠ some (.call index)) : next.phaseOf index = m.phaseOf index := by
  cases move with
  | arrives problem =>
    simp only [phaseOf, List.getElem?_append]
    split
    · rfl
    · next beyond =>
      rw [List.getElem?_eq_none (Nat.not_lt.mp beyond), List.getElem?_singleton]
      split <;> rfl
  | ofCall there move =>
    have apart := fun same => other (move.party_eq.trans (congrArg _ same))
    exact phaseOf_setCall_ne move.calls_eq (fun same => apart (congrArg Party.call same)) _
  | ofThread there housed move => simp only [phaseOf, setThread, move.calls_eq]
  | aborts => simp only [phaseOf, calls_abort]

/-- A step keeps the account of every call true. -/
theorem Move.accounts (move : Move m event next) {size : Nat} (whole : m.slots.length = size)
    (account : (m.phaseOf index).Accounts size asked kept passed) :
    (next.phaseOf index).Accounts size
      (asked ++ m.transition CallPhase.asks index event next)
      (kept ++ m.transition CallPhase.keeps index event next)
      (passed ++ m.transition CallPhase.passes index event next) := by
  by_cases own : event.party? = some (.call index)
  · obtain ⟨problem, before, effect, after, there, own, rfl⟩ := move.exists_callMove own
    rw [transition_own there own, transition_own there own, transition_own there own,
      phaseOf_setCall_self own.calls_eq there]
    rw [Machine.phaseOf_eq there] at account
    exact whole ▸ own.accounts (whole ▸ account)
  · rw [transition_other own, transition_other own, transition_other own, move.phaseOf_eq own]
    simpa only [List.append_nil] using account

end Moves

theorem length_of_steps {workers : List (Worker D)} {waits : Waits} {logs : Bool} {shared : σ}
    {events : List (Event D)} {m : Machine D}
    (run : (ofWorkers workers waits logs shared).steps events = some m) :
    m.slots.length = workers.length := by
  induction events, m, run using steps_induction with
  | nothing => exact List.length_map ..
  | more events m event next run step ih => exact (move_of_step step).length_slots.trans ih

/-- A call that is right about its pass stays so. -/
theorem accounts_of_steps {start m : Machine D} {index : Nat} {events : List (Event D)}
    {asked kept passed : List Nat}
    (account : (start.phaseOf index).Accounts start.slots.length asked kept passed)
    (run : start.steps events = some m) : m.slots.length = start.slots.length ∧
      (m.phaseOf index).Accounts start.slots.length (asked ++ start.askedBy index events)
        (kept ++ start.keptBy index events) (passed ++ start.passedBy index events) := by
  induction events, m, run using steps_induction with
  | nothing =>
    refine ⟨rfl, ?_⟩
    simpa only [askedBy, keptBy, passedBy, record_nil, List.append_nil] using account
  | more events m event next run step ih =>
    obtain ⟨whole, account⟩ := ih
    have move := move_of_step step
    simp only [askedBy, keptBy, passedBy, record_concat run step, ← List.append_assoc]
    exact ⟨move.length_slots.trans whole, move.accounts whole account⟩

/-- A call that has not begun is right about its pass at every moment from then on. -/
theorem accounts_of_arriving {start m : Machine D} {index : Nat} {events : List (Event D)}
    (new : start.phaseOf index = .arriving) (run : start.steps events = some m) :
    (m.phaseOf index).Accounts start.slots.length (start.askedBy index events)
      (start.keptBy index events) (start.passedBy index events) := by
  have account : (start.phaseOf index).Accounts start.slots.length [] [] [] := by
    rw [new]
    exact ⟨rfl, rfl, rfl⟩
  exact (accounts_of_steps account run).2

end Machine

end MotionRace
