import MotionRace.Proofs.Race.Answers

/-!
# What a pass sees and hears

A pass is told by two things that it does not decide itself: what the marks of the slots were when
it looked at them, and what the workers answered that it asked. Both are recorded here, and the
slots that a call asks, keeps and passes over are read off them.

Main statements: `slots_of_sightings`, a call looks at the slots one after another in pool order,
and `finals_of_steps`, each worker that was found idle is asked until it has answered, and no other
is asked.
-/

namespace MotionRace

variable {σ : Type} {D : Domain σ}

/-- A look of a call at a slot, and whether the slot was marked. -/
structure Sighting where
  slot : Nat
  busy : Bool
  deriving Repr, DecidableEq

/-- The answer that a call gets from the worker of a slot. -/
structure Reply where
  slot : Nat
  answer : Eligibility
  deriving Repr, DecidableEq

/-- Whether an answer ends the question. -/
def Eligibility.isFinal : Eligibility → Bool
  | .undecided => false
  | _ => true

/-- Whether the problem is taken on. -/
def Eligibility.isWilling : Eligibility → Bool
  | .accepts => true
  | _ => false

/-- Whether the question took the call down. -/
def Eligibility.isPanic : Eligibility → Bool
  | .panics _ => true
  | _ => false

namespace Sighting

/-- The slots that were found idle. -/
def idle (seen : List Sighting) : List Nat := (seen.filter (!·.busy)).map (·.slot)

/-- The slots that were found marked. -/
def marked (seen : List Sighting) : List Nat := (seen.filter (·.busy)).map (·.slot)

@[simp] theorem idle_append (seen more : List Sighting) :
    idle (seen ++ more) = idle seen ++ idle more := by
  simp only [idle, List.filter_append, List.map_append]

@[simp] theorem marked_append (seen more : List Sighting) :
    marked (seen ++ more) = marked seen ++ marked more := by
  simp only [marked, List.filter_append, List.map_append]

theorem length_idle_add_marked (seen : List Sighting) :
    (idle seen).length + (marked seen).length = seen.length := by
  induction seen with
  | nil => rfl
  | cons first rest ih =>
    simp only [idle, marked, List.length_map] at ih
    cases busy : first.busy <;> simp [idle, marked, busy] <;> omega

theorem mem_idle {seen : List Sighting} {slot : Nat} :
    slot ∈ idle seen ↔ ⟨slot, false⟩ ∈ seen := by
  simp only [idle, List.mem_map, List.mem_filter, Bool.not_eq_true']
  constructor
  · rintro ⟨⟨_, _⟩, ⟨listed, rfl⟩, rfl⟩
    exact listed
  · intro listed
    exact ⟨_, ⟨listed, rfl⟩, rfl⟩

theorem mem_marked {seen : List Sighting} {slot : Nat} :
    slot ∈ marked seen ↔ ⟨slot, true⟩ ∈ seen := by
  simp only [marked, List.mem_map, List.mem_filter]
  constructor
  · rintro ⟨⟨_, _⟩, ⟨listed, rfl⟩, rfl⟩
    exact listed
  · intro listed
    exact ⟨_, ⟨listed, rfl⟩, rfl⟩

end Sighting

namespace Reply

/-- The slots whose workers have answered. -/
def finals (replies : List Reply) : List Nat := (replies.filter (·.answer.isFinal)).map (·.slot)

/-- The slots whose workers take the problem on. -/
def willing (replies : List Reply) : List Nat :=
  (replies.filter (·.answer.isWilling)).map (·.slot)

@[simp] theorem finals_append (replies more : List Reply) :
    finals (replies ++ more) = finals replies ++ finals more := by
  simp only [finals, List.filter_append, List.map_append]

@[simp] theorem willing_append (replies more : List Reply) :
    willing (replies ++ more) = willing replies ++ willing more := by
  simp only [willing, List.filter_append, List.map_append]

/-- A worker that takes the problem on has answered. -/
theorem willing_sublist_finals (replies : List Reply) :
    (willing replies).Sublist (finals replies) := by
  refine List.Sublist.map _ (List.monotone_filter_right _ fun reply yes => ?_)
  cases answer : reply.answer with
  | accepts => rfl
  | _ =>
    rw [answer] at yes
    cases yes

end Reply

namespace Machine

/-- What a call sees of a slot when it comes to it. -/
def sightingsOf (index : Nat) (m : Machine D) (event : Event D) (_ : Machine D) : List Sighting :=
  match event, m.phaseOf index with
  | .call mover, .claiming slot _ _ =>
    if mover = index then ((m.slots[slot]?).map fun entry => ⟨slot, entry.busy⟩).toList else []
  | _, _ => []

/-- What a call hears from the worker that it asks. -/
def repliesOf (index : Nat) (m : Machine D) (event : Event D) (_ : Machine D) : List Reply :=
  match event, m.calls[index]? with
  | .call mover, some ⟨problem, .asking slot _ _⟩ =>
    if mover = index then
      ((m.slots[slot]?).map fun entry => ⟨slot, m.answer entry problem⟩).toList
    else []
  | _, _ => []

/-- What a call sees in a history. -/
def sightingsBy (start : Machine D) (index : Nat) (events : List (Event D)) : List Sighting :=
  start.record (sightingsOf index) events

/-- What a call hears in a history. -/
def repliesBy (start : Machine D) (index : Nat) (events : List (Event D)) : List Reply :=
  start.record (repliesOf index) events

section Moves

variable {m next effect : Machine D} {index : Nat} {problem : D.Problem} {event : Event D}
  {before after : CallPhase D}

theorem sightingsOf_other (other : event.party? ≠ some (.call index)) :
    sightingsOf index m event next = [] := by
  unfold sightingsOf
  split
  · refine if_neg ?_
    rintro rfl
    exact other rfl
  · rfl

theorem repliesOf_other (other : event.party? ≠ some (.call index)) :
    repliesOf index m event next = [] := by
  unfold repliesOf
  split
  · refine if_neg ?_
    rintro rfl
    exact other rfl
  · rfl

/-- A call that has no slot to look at sees nothing. -/
theorem sightingsOf_eq_nil (there : m.phaseOf index = before)
    (elsewhere : ∀ next claimed busy, before ≠ .claiming next claimed busy) :
    sightingsOf index m event next = [] := by
  unfold sightingsOf
  split
  next claiming => exact absurd (there.symm.trans claiming) (elsewhere _ _ _)
  next => rfl

/-- A call that asks nobody hears nothing. -/
theorem repliesOf_eq_nil (there : m.calls[index]? = some ⟨problem, before⟩)
    (silent : before.inQuestion = []) : repliesOf index m event next = [] := by
  unfold repliesOf
  split
  next asking =>
    obtain rfl := congrArg Call.phase (Option.some.inj (there.symm.trans asking))
    cases silent
  next => rfl

theorem sightingsOf_claiming {slot busy : Nat} {claimed : List Nat} {entry : Slot D}
    (now : m.phaseOf index = .claiming slot claimed busy) (there : m.slots[slot]? = some entry) :
    sightingsOf index m (.call index) next = [⟨slot, entry.busy⟩] := by
  simp only [sightingsOf, now, if_true, there, Option.map_some, Option.toList_some]

theorem repliesOf_asking {slot busy : Nat} {claimed : List Nat} {entry : Slot D}
    (now : m.calls[index]? = some ⟨problem, .asking slot claimed busy⟩)
    (there : m.slots[slot]? = some entry) :
    repliesOf index m (.call index) next = [⟨slot, m.answer entry problem⟩] := by
  simp only [repliesOf, now, if_true, there, Option.map_some, Option.toList_some]

/-- A call that sees something is about to claim a slot, and sees that slot. -/
theorem sightingsOf_cases (index : Nat) (m : Machine D) (event : Event D) (next : Machine D) :
    sightingsOf index m event next = [] ∨ ∃ slot claimed busy found,
      m.phaseOf index = .claiming slot claimed busy ∧
        sightingsOf index m event next = [⟨slot, found⟩] := by
  unfold sightingsOf
  split
  next mover slot claimed busy now =>
    split
    · cases m.slots[slot]? with
      | none => exact .inl rfl
      | some entry => exact .inr ⟨slot, claimed, busy, entry.busy, now, rfl⟩
    · exact .inl rfl
  next => exact .inl rfl

/-- A call asks the slots that it sees idle, and passes over those that it sees marked. -/
theorem CallMove.sightings (move : CallMove m index problem event before effect after)
    (there : m.calls[index]? = some ⟨problem, before⟩) :
    before.asks after = Sighting.idle (sightingsOf index m event next) ∧
      before.passes after = Sighting.marked (sightingsOf index m event next) := by
  have now := phaseOf_eq there
  cases move with
  | claimsOver beyond =>
    rw [asks_afterClaims, passes_afterClaims]
    simp only [sightingsOf, now, if_true, beyond]
    exact ⟨rfl, rfl⟩
  | passesOver housed taken =>
    rw [sightingsOf_claiming now housed, taken]
    exact ⟨rfl, rfl⟩
  | claims housed free =>
    rw [sightingsOf_claiming now housed, free]
    exact ⟨rfl, rfl⟩
  | _ =>
    rw [sightingsOf_eq_nil now nofun]
    exact ⟨rfl, rfl⟩

/-- A call keeps the slots of the workers that it hears to take its problem on. -/
theorem CallMove.replies (move : CallMove m index problem event before effect after)
    (there : m.calls[index]? = some ⟨problem, before⟩) :
    before.keeps after = Reply.willing (repliesOf index m event next) := by
  cases move with
  | claimsOver =>
    rw [keeps_afterClaims, repliesOf_eq_nil there rfl]
    rfl
  | accepted housed _ yes =>
    rw [repliesOf_asking there housed, yes]
    exact List.drop_left
  | declined housed _ no =>
    rw [repliesOf_asking there housed, no]
    exact List.drop_length
  | undecided housed _ unclear =>
    rw [repliesOf_asking there housed, unclear]
    rfl
  | panics housed _ down =>
    rw [repliesOf_asking there housed, down]
    rfl
  | _ =>
    rw [repliesOf_eq_nil there rfl]
    rfl

/-- A question stays open until the worker has answered. -/
theorem CallMove.question (move : CallMove m index problem event before effect after)
    (there : m.calls[index]? = some ⟨problem, before⟩) :
    before.inQuestion ++ before.asks after =
        Reply.finals (repliesOf index m event next) ++ after.inQuestion ∧
      ∀ reply ∈ repliesOf index m event next, reply.slot ∈ before.inQuestion := by
  cases move with
  | claimsOver =>
    rw [asks_afterClaims, inQuestion_afterClaims, repliesOf_eq_nil there rfl]
    exact ⟨rfl, fun _ listed => absurd listed List.not_mem_nil⟩
  | accepted housed _ said | declined housed _ said | undecided housed _ said
    | panics housed _ said =>
    rw [repliesOf_asking there housed, said]
    refine ⟨rfl, fun reply listed => ?_⟩
    rw [List.mem_singleton.mp listed]
    exact List.mem_singleton_self _
  | _ =>
    rw [repliesOf_eq_nil there rfl]
    exact ⟨rfl, fun _ listed => absurd listed List.not_mem_nil⟩

/-- Nobody takes a call down but a worker that panics when it is asked. -/
theorem CallMove.panic_of_down (move : CallMove m index problem event before effect after)
    (there : m.calls[index]? = some ⟨problem, before⟩) (up : before.isDown = false)
    (down : after.isDown = true) :
    ∃ reply ∈ repliesOf index m event next, reply.answer.isPanic = true := by
  cases move with
  | panics housed _ said =>
    rw [repliesOf_asking there housed, said]
    exact ⟨_, List.mem_singleton_self _, rfl⟩
  | claimsOver =>
    rw [up_afterClaims] at down
    cases down
  | leaves => exact absurd down (ne_true_of_eq_false up)
  | _ => cases down

end Moves

section Run

variable {start m : Machine D} {index : Nat} {events : List (Event D)}

/-- The slots that a call asks are those that it sees idle, those that it passes over are those that
it sees marked, and those that it keeps are those whose workers it hears to take the problem on. -/
theorem pass_of_steps (index : Nat) (run : start.steps events = some m) :
    start.askedBy index events = Sighting.idle (start.sightingsBy index events) ∧
      start.passedBy index events = Sighting.marked (start.sightingsBy index events) ∧
      start.keptBy index events = Reply.willing (start.repliesBy index events) := by
  induction events, m, run using steps_induction with
  | nothing => exact ⟨rfl, rfl, rfl⟩
  | more events m event next run step ih =>
    obtain ⟨asked, passed, kept⟩ := ih
    simp only [askedBy, passedBy, keptBy, sightingsBy, repliesBy] at asked passed kept ⊢
    simp only [record_concat run step, Sighting.idle_append, Sighting.marked_append,
      Reply.willing_append, asked, passed, kept]
    by_cases own : event.party? = some (.call index)
    · obtain ⟨problem, before, effect, after, there, own, rfl⟩ :=
        (move_of_step step).exists_callMove own
      simp only [transition_own there own]
      obtain ⟨asks, passes⟩ := own.sightings there
      exact ⟨congrArg _ asks, congrArg _ passes, congrArg _ (own.replies there)⟩
    · simp only [transition_other own, sightingsOf_other own, repliesOf_other own]
      exact ⟨rfl, rfl, rfl⟩

/-- A call looks at the slots one after another, in pool order. -/
theorem slots_of_sightings (new : start.phaseOf index = .arriving)
    (run : start.steps events = some m) :
    (start.sightingsBy index events).map (·.slot) =
      List.range (start.sightingsBy index events).length := by
  induction events, m, run using steps_induction with
  | nothing => rfl
  | more events m event next run step ih =>
    simp only [sightingsBy, record_concat run step, List.map_append, List.length_append] at ih ⊢
    rcases sightingsOf_cases index m event next with
      unseen | ⟨slot, claimed, busy, found, now, seen⟩
    · rw [unseen, List.map_nil, List.append_nil, List.length_nil, Nat.add_zero, ih]
    · -- The slots that were asked and passed over so far are the first ones, and all were seen.
      have account := accounts_of_arriving new run
      rw [now] at account
      obtain ⟨asked, passed, -⟩ := pass_of_steps index run
      have many := account.1.each.length_eq
      rw [List.length_append, List.length_range, asked, passed,
        Sighting.length_idle_add_marked] at many
      rw [seen, ih, List.length_singleton, List.range_succ, List.map_singleton]
      exact congrArg (fun last => _ ++ [last]) many.symm

/-- The worker of each slot that was found idle is asked until it has answered, and no other worker
is asked. -/
theorem finals_of_steps (new : start.phaseOf index = .arriving)
    (run : start.steps events = some m) :
    Reply.finals (start.repliesBy index events) ++ (m.phaseOf index).inQuestion =
        start.askedBy index events ∧
      ∀ reply ∈ start.repliesBy index events, reply.slot ∈ start.askedBy index events := by
  induction events, m, run using steps_induction with
  | nothing =>
    rw [new]
    exact ⟨rfl, fun _ listed => absurd listed List.not_mem_nil⟩
  | more events m event next run step ih =>
    obtain ⟨finals, heard⟩ := ih
    simp only [repliesBy, askedBy] at finals heard ⊢
    simp only [record_concat run step, Reply.finals_append, ← finals]
    by_cases own : event.party? = some (.call index)
    · obtain ⟨problem, before, effect, after, there, own, rfl⟩ :=
        (move_of_step step).exists_callMove own
      obtain ⟨question, asked⟩ := own.question there
      rw [phaseOf_eq there, phaseOf_setCall_self own.calls_eq there, transition_own there own,
        List.append_assoc, List.append_assoc, ← question]
      refine ⟨rfl, fun reply listed => ?_⟩
      rcases List.mem_append.mp listed with listed | listed
      · have before := heard reply listed
        rw [← finals, phaseOf_eq there] at before
        rw [← List.append_assoc]
        exact List.mem_append_left _ before
      · exact List.mem_append_right _ (List.mem_append_left _ (asked reply listed))
    · rw [transition_other own, repliesOf_other own, (move_of_step step).phaseOf_eq own]
      simp only [Reply.finals, List.filter_nil, List.map_nil, List.append_nil, true_and]
      intro reply listed
      have before := heard reply listed
      rwa [← finals] at before

/-- A call that hears no panic is not taken down. -/
theorem up_of_steps (new : start.phaseOf index = .arriving) (run : start.steps events = some m)
    (calm : ∀ reply ∈ start.repliesBy index events, reply.answer.isPanic = false) :
    (m.phaseOf index).isDown = false := by
  induction events, m, run using steps_induction with
  | nothing =>
    rw [new]
    rfl
  | more events m event next run step ih =>
    simp only [repliesBy, record_concat run step] at calm
    have up := ih fun reply listed => calm reply (List.mem_append_left _ listed)
    by_cases own : event.party? = some (.call index)
    · obtain ⟨problem, before, effect, after, there, own, rfl⟩ :=
        (move_of_step step).exists_callMove own
      rw [phaseOf_eq there] at up
      rw [phaseOf_setCall_self own.calls_eq there]
      refine Bool.eq_false_iff.mpr fun down => ?_
      obtain ⟨reply, listed, panics⟩ := own.panic_of_down there up down
      exact absurd panics (ne_true_of_eq_false (calm reply (List.mem_append_right _ listed)))
    · rw [(move_of_step step).phaseOf_eq own]
      exact up

/-- By the time that its pass is over, a call has looked at every slot. -/
theorem length_of_sightings (new : start.phaseOf index = .arriving)
    (run : start.steps events = some m) (begun : (m.phaseOf index).begun = true)
    (up : (m.phaseOf index).isDown = false) (finished : (m.phaseOf index).isPassing = false) :
    (start.sightingsBy index events).length = start.slots.length := by
  obtain ⟨asked, passed, -⟩ := pass_of_steps index run
  have dealt := (accounts_of_arriving new run).dealt begun up finished
  have many := dealt.each.length_eq
  rwa [List.length_append, List.length_range, asked, passed,
    Sighting.length_idle_add_marked] at many

end Run

end Machine

end MotionRace
