import MotionRace.Proofs.Race.Collecting
import MotionRace.Proofs.Race.Tokens

/-!
# What a collector polls

A collector in a pass looks at one place a step. A `Poll` is such a look: where, for whom, and what
it found. `pollsBy` are the polls of a race in a history, in order, and `abortsOf` the aborts that
found the race in flight.
-/

namespace MotionRace

/-- A look of a collector at a place that holds a worker. -/
structure Poll (α : Type) where
  place : Nat
  pending : Pending
  found : Look α

namespace Poll

variable {α : Type}

/-- Whether a poll found a report, or a worker gone. -/
def isSeen (poll : Poll α) : Bool :=
  match poll.found with
  | .empty => false
  | _ => true

/-- Whether a poll found a success. -/
def isWin (poll : Poll α) : Bool :=
  match poll.found with
  | .ready (.success _) => true
  | _ => false

end Poll

namespace Collector

variable {α : Type} {c next : Collector} {calledOff : Bool} {look : Pending → Look α}

/-- The look that the next step of a collector takes, if it takes one. -/
def poll? (c : Collector) (look : Pending → Look α) : Option (Poll α) :=
  match c.cursor with
  | .head => none
  | .place place => ((c.places[place]?).join).map fun pending => ⟨place, pending, look pending⟩

theorem at_of_poll? {poll : Poll α} (polls : c.poll? look = some poll) :
    c.At poll.place poll.pending ∧ poll.found = look poll.pending := by
  unfold poll? at polls
  split at polls
  next => cases polls
  next place cursor =>
    obtain ⟨pending, there, rfl⟩ := Option.map_eq_some_iff.mp polls
    exact ⟨⟨cursor, Option.join_eq_some_iff.mp there⟩, rfl⟩

/-- What a collector decides, and the poll that it decides on. -/
theorem decided_by {outcome : Outcome α} (decided : c.step calledOff look = .decided outcome) :
    (c.poll? look = none ∧ (outcome = .aborted ∧ calledOff = true ∨
      outcome = .allFailed ∧ calledOff = false ∧ c.failures = c.launched)) ∨
    ∃ poll artifact, c.poll? look = some poll ∧ poll.found = .ready (.success artifact) ∧
      outcome = .succeeded poll.pending.worker artifact := by
  cases cursor : c.cursor with
  | head =>
    have nothing : c.poll? look = none := by simp only [poll?, cursor]
    rcases decided_cases decided with ⟨rfl, off⟩ | ⟨rfl, lost, on⟩ | ⟨_, _, _, -, there, -⟩
    · exact .inl ⟨nothing, .inl ⟨rfl, off⟩⟩
    · exact .inl ⟨nothing, .inr ⟨rfl, on, lost⟩⟩
    · exact absurd (cursor.symm.trans there.1) nofun
  | place place =>
    simp only [step, cursor] at decided
    cases held : (c.places[place]?).join with
    | none =>
      rw [held] at decided
      cases decided
    | some pending =>
      have polls : c.poll? look = some ⟨place, pending, look pending⟩ := by
        simp only [poll?, cursor, held, Option.map_some]
      rw [held] at decided
      right
      cases seen : look pending with
      | empty | vanished => simp only [observe, seen, reduceCtorEq] at decided
      | ready verdict =>
        cases verdict with
        | failure reason => simp only [observe, seen, reduceCtorEq] at decided
        | success artifact =>
          simp only [observe, seen, Collected.decided.injEq] at decided
          exact ⟨_, artifact, polls, seen, decided.symm⟩

/-- How a collector goes on: it begins a pass, it finds nothing at a place, or it sees that a worker
did not succeed. -/
theorem goesOn_by (looked : c.step calledOff look = .goesOn next) :
    (c.cursor = .head ∧ c.poll? look = none ∧ calledOff = false ∧
      next = { c with cursor := .place 0 }) ∨
    ∃ place, c.cursor = .place place ∧
      ((next = c.pass place ∧ ∀ poll, c.poll? look = some poll → poll.isSeen = false) ∨
        ∃ poll, c.poll? look = some poll ∧ poll.place = place ∧ poll.isSeen = true ∧
          poll.isWin = false ∧ next = c.drop place) := by
  cases cursor : c.cursor with
  | head =>
    left
    have nothing : c.poll? look = none := by simp only [poll?, cursor]
    rcases goesOn_cases looked with ⟨on, -, rfl⟩ | ⟨place, -⟩ | ⟨_, _, -, there, -⟩
    · exact ⟨rfl, nothing, on, rfl⟩
    · simp only [step, cursor, atHead] at looked
      split at looked
      · cases looked
      · next on =>
        split at looked
        · cases looked
        · cases looked
          exact ⟨rfl, nothing, Bool.eq_false_iff.mpr on, rfl⟩
    · exact absurd (cursor.symm.trans there.1) nofun
  | place place =>
    right
    refine ⟨place, rfl, ?_⟩
    simp only [step, cursor] at looked
    cases held : (c.places[place]?).join with
    | none =>
      have nothing : c.poll? look = none := by simp only [poll?, cursor, held, Option.map_none]
      rw [held] at looked
      cases looked
      exact .inl ⟨rfl, fun poll polls => nomatch nothing.symm.trans polls⟩
    | some pending =>
      have polls : c.poll? look = some ⟨place, pending, look pending⟩ := by
        simp only [poll?, cursor, held, Option.map_some]
      rw [held] at looked
      cases seen : look pending with
      | empty =>
        simp only [observe, seen, Collected.goesOn.injEq] at looked
        refine .inl ⟨looked.symm, fun poll also => ?_⟩
        obtain rfl := Option.some.inj (polls.symm.trans also)
        simp only [Poll.isSeen, seen]
      | vanished =>
        simp only [observe, seen, Collected.goesOn.injEq] at looked
        exact .inr ⟨_, polls, rfl, by simp only [Poll.isSeen, seen],
          by simp only [Poll.isWin, seen], looked.symm⟩
      | ready verdict =>
        cases verdict with
        | success artifact => simp only [observe, seen, reduceCtorEq] at looked
        | failure reason =>
          simp only [observe, seen, Collected.goesOn.injEq] at looked
          exact .inr ⟨_, polls, rfl, by simp only [Poll.isSeen, seen],
            by simp only [Poll.isWin, seen], looked.symm⟩

end Collector

variable {σ : Type} {D : Domain σ}

/-- Whether a call in a phase is collecting. -/
def CallPhase.isCollecting : CallPhase D → Bool
  | .collecting .. => true
  | _ => false

namespace Machine

/-- The poll that an event makes for a race. -/
def pollsOf (index : Nat) (m : Machine D) (event : Event D) (_ : Machine D) :
    List (Poll D.Artifact) :=
  match event, m.phaseOf index with
  | .call mover, .collecting c _ => if mover = index then (c.poll? m.look).toList else []
  | _, _ => []

/-- The polls of a race in a history. -/
def pollsBy (start : Machine D) (index : Nat) (events : List (Event D)) : List (Poll D.Artifact) :=
  start.record (pollsOf index) events

section Moves

variable {m next effect : Machine D} {index : Nat} {problem : D.Problem} {event : Event D}
  {before after : CallPhase D}

theorem pollsOf_other (other : event.party? ≠ some (.call index)) :
    pollsOf index m event next = [] := by
  unfold pollsOf
  split
  · refine if_neg ?_
    rintro rfl
    exact other rfl
  · rfl

theorem pollsOf_collecting {c : Collector} {abort : Token}
    (now : m.phaseOf index = .collecting c abort) :
    pollsOf index m (.call index) next = (c.poll? m.look).toList := by
  simp only [pollsOf, now, if_true]

theorem pollsOf_eq_nil (now : (m.phaseOf index).isCollecting = false) :
    pollsOf index m event next = [] := by
  unfold pollsOf
  split
  next collecting =>
    rw [collecting] at now
    cases now
  next => rfl

end Moves

end Machine

end MotionRace
