import MotionRace.Race.Collect

/-!
# What a step of a collector can do

Before a pass a collector gives up, because it was called off or because everybody failed, or it
begins the pass. At a place it sees a success and has decided, it sees nothing and passes on, or it
sees that the worker failed or vanished and empties the place.
-/

namespace MotionRace.Collector

variable {α : Type} {c : Collector} {calledOff : Bool} {look : Pending → Look α}

/-- The worker of a place that a collector is about to look at. -/
def At (c : Collector) (index : Nat) (pending : Pending) : Prop :=
  c.cursor = .place index ∧ c.places[index]? = some (some pending)

/-- Why a collector decides. -/
theorem decided_cases {outcome : Outcome α} (h : c.step calledOff look = .decided outcome) :
    (outcome = .aborted ∧ calledOff = true) ∨
      (outcome = .allFailed ∧ c.failures = c.launched ∧ calledOff = false) ∨
      ∃ index pending artifact, outcome = .succeeded pending.worker artifact ∧
        c.At index pending ∧ look pending = .ready (.success artifact) := by
  unfold step at h
  split at h
  next head =>
    unfold atHead at h
    cases calledOff with
    | true =>
      cases h
      exact .inl ⟨rfl, rfl⟩
    | false =>
      simp only [Bool.false_eq_true, if_false] at h
      split at h
      next lost =>
        cases h
        exact .inr (.inl ⟨rfl, lost, rfl⟩)
      next => cases h
  next index place =>
    split at h
    next => cases h
    next pending there =>
      cases seen : look pending with
      | empty => simp only [observe, seen, reduceCtorEq] at h
      | vanished => simp only [observe, seen, reduceCtorEq] at h
      | ready verdict =>
        cases verdict with
        | failure reason => simp only [observe, seen, reduceCtorEq] at h
        | success artifact =>
          simp only [observe, seen, Collected.decided.injEq] at h
          exact .inr (.inr ⟨index, pending, artifact, h.symm,
            ⟨place, Option.join_eq_some_iff.mp there⟩, seen⟩)

/-- How a collector goes on. -/
theorem goesOn_cases {next : Collector} (h : c.step calledOff look = .goesOn next) :
    (calledOff = false ∧ c.failures ≠ c.launched ∧ next = { c with cursor := .place 0 }) ∨
      (∃ index, next = c.pass index) ∨
      ∃ index pending, next = c.drop index ∧ c.At index pending ∧
        ((∃ reason, look pending = .ready (.failure reason)) ∨ look pending = .vanished) := by
  unfold step at h
  split at h
  next head =>
    unfold atHead at h
    cases calledOff with
    | true => cases h
    | false =>
      simp only [Bool.false_eq_true, if_false] at h
      split at h
      next => cases h
      next more =>
        cases h
        exact .inl ⟨rfl, more, rfl⟩
  next index place =>
    split at h
    next =>
      cases h
      exact .inr (.inl ⟨index, rfl⟩)
    next pending there =>
      have here : c.At index pending := ⟨place, Option.join_eq_some_iff.mp there⟩
      cases seen : look pending with
      | empty =>
        simp only [observe, seen, Collected.goesOn.injEq] at h
        exact .inr (.inl ⟨index, h.symm⟩)
      | vanished =>
        simp only [observe, seen, Collected.goesOn.injEq] at h
        exact .inr (.inr ⟨index, pending, h.symm, here, .inr seen⟩)
      | ready verdict =>
        cases verdict with
        | failure reason =>
          simp only [observe, seen, Collected.goesOn.injEq] at h
          exact .inr (.inr ⟨index, pending, h.symm, here, .inl ⟨reason, seen⟩⟩)
        | success artifact => simp only [observe, seen, reduceCtorEq] at h

/-- A collector never finds that there was nobody to race. -/
theorem ne_noneEligible_of_decided {outcome : Outcome α}
    (h : c.step calledOff look = .decided outcome) : outcome ≠ .noneEligible := by
  rcases decided_cases h with ⟨rfl, -⟩ | ⟨rfl, -⟩ | ⟨_, _, _, rfl, -⟩ <;> exact nofun

end MotionRace.Collector
