import MotionRace.Proofs.Race.Lost

/-!
# Coming on by one's own steps

A call that has the racing flag can take a step whatever the others do, and so can a thread that
holds the worker of its slot. Where something falls at each of these steps, they lead on without
anybody else having to move.
-/

namespace MotionRace.Machine

variable {σ : Type} {D : Domain σ}

/-- Steps of one's own lead to a goal if there is one to take before the goal is reached, and
something falls at each. -/
theorem exists_steps_of_measure (own : Event D → Prop) (P Q : Machine D → Prop)
    (measure : Machine D → Nat)
    (goesOn : ∀ m, P m → ¬ Q m → ∃ event next, own event ∧ m.step event = some next ∧ P next ∧
      measure next < measure m)
    {m : Machine D} (begins : P m) :
    ∃ events last, (∀ event ∈ events, own event) ∧ m.steps events = some last ∧
      P last ∧ Q last := by
  induction bound : measure m using Nat.strongRecOn generalizing m with
  | ind count ih =>
    by_cases reached : Q m
    · exact ⟨[], m, fun _ listed => absurd listed List.not_mem_nil, rfl, begins, reached⟩
    · obtain ⟨event, next, mine, step, kept, fewer⟩ := goesOn m begins reached
      obtain ⟨rest, last, owns, run, kept, reached⟩ := ih _ (bound ▸ fewer) kept rfl
      refine ⟨event :: rest, last, ?_, ?_, kept, reached⟩
      · intro other listed
        rcases List.mem_cons.mp listed with rfl | listed
        · exact mine
        · exact owns other listed
      · rw [steps_cons, step, Option.bind_some, run]

theorem ending_of_phaseOf {m : Machine D} {index : Nat} {ending : Ending D.Artifact}
    (now : m.phaseOf index = .ended ending) : m.ending? index = some ending := by
  unfold phaseOf at now
  unfold ending?
  cases there : m.calls[index]? with
  | none =>
    rw [there] at now
    cases now
  | some call =>
    obtain ⟨problem, phase⟩ := call
    rw [there] at now
    obtain rfl : phase = .ended ending := now
    rfl

/-- A call that has the racing flag can always take a step. -/
theorem Balanced.exists_step_of_flight {m : Machine D} {left : List Nat} {index : Nat}
    (balanced : Balanced m left) (flying : m.InFlight index) :
    ∃ event next, event.party? = some (.call index) ∧ m.step event = some next := by
  obtain ⟨⟨problem, phase⟩, there, flies⟩ := flying
  have moves : m.step (.call index) ≠ none → ∃ event next, event.party? = some (.call index) ∧
      m.step event = some next := by
    intro moves
    obtain ⟨next, step⟩ := Option.ne_none_iff_exists'.mp moves
    exact ⟨.call index, next, rfl, step⟩
  cases phase with
  | waiting => exact ⟨.expire index, _, rfl, by simp only [step, expire, there]; rfl⟩
  | claiming next claimed busy =>
    apply moves
    simp only [step, stepCall, there]
    cases housed : m.slots[next]? with
    | none => simp [housed]
    | some slot => cases taken : slot.busy <;> simp [housed, taken]
  | asking next claimed busy =>
    obtain ⟨slot, housed, unlocked⟩ := balanced.unlocked_of_asking there
    apply moves
    simp [step, stepCall, there, housed, unlocked]
  | registered claimed abort =>
    apply moves
    cases stopped : m.flags.isStopped abort <;> simp [step, stepCall, there, stopped]
  | handingBack claimed | launching claimed =>
    apply moves
    cases claimed <;> simp [step, stepCall, there]
  | collecting c abort =>
    apply moves
    simp only [step, stepCall, there, Option.bind_eq_bind, Option.bind_some]
    cases c.step (m.flags.isStopped abort) m.look with
    | goesOn next => exact nofun
    | decided outcome => cases outcome <;> exact nofun
  | registering | signalling | leaving =>
    apply moves
    simp [step, stepCall, there]
  | arriving | ended => cases flies

end MotionRace.Machine
