import MotionRace.Planner.Domain
import MotionRace.Pool.Worker

/-!
# A worker by itself

What a worker comes to when it is run by itself and never asked to stop. In a race its steps are
interleaved with those of others, and what the parts of the domain share may change in between; if
that makes no difference to a step, the worker comes to the same verdict as by itself.
-/

namespace MotionRace

variable {σ : Type} {D : Domain σ}

/-- A domain in which nothing that is shared has an influence on a run. -/
structure Domain.Unshared (D : Domain σ) : Prop where
  copy : ∀ world s t, (D.copy world s).1 = (D.copy world t).1
  start : ∀ solver problem world backend s t,
    (D.start solver problem world backend s).1 = (D.start solver problem world backend t).1
  advance : ∀ session stopped s t, (D.advance session stopped s).1 = (D.advance session stopped t).1

/-- Planners share the source of their streams, which no run draws from. -/
theorem planning_unshared : planning.Unshared where
  copy _ _ _ := rfl
  start _ _ _ _ _ _ := rfl
  advance _ _ _ _ := rfl

namespace Worker

/-- How far a worker can have come by itself, and the worker as it is then. -/
inductive Alone (w : Worker D) (problem : D.Problem) : RunPhase D → Worker D → Prop where
  | entered : Alone w problem .entered w
  | step {phase worker} (shared : σ) (before : Alone w problem phase worker)
      (goesOn : RunPhase.ending? phase = none) :
    Alone w problem (worker.step problem false phase shared).1.1
      (worker.step problem false phase shared).1.2

/-- Whether a worker comes to an end by itself, whatever is shared: to a verdict, or to a panic
outside its solve. -/
def Ends (w : Worker D) (problem : D.Problem) (ending : Except Panic (Verdict D.Artifact)) : Prop :=
  ∀ shared, ∃ fuel after, w.run (fun _ => false) problem fuel shared = some (ending, after)

theorem step_unshared (unshared : D.Unshared) (w : Worker D) (problem : D.Problem)
    (stopped : Bool) (phase : RunPhase D) (s t : σ) :
    (w.step problem stopped phase s).1 = (w.step problem stopped phase t).1 := by
  cases phase with
  | copying =>
    have copied := unshared.copy w.world s t
    rcases first : D.copy w.world s with ⟨made, s'⟩
    rcases second : D.copy w.world t with ⟨made', t'⟩
    rw [first, second] at copied
    cases copied
    simp only [step, first, second]
    rcases made with panic | failure | scratch
    · rfl
    · rfl
    · exact congrArg (fun session => (RunPhase.solving session .ready, w))
        (unshared.start w.solver problem scratch w.backend s' t')
  | solving session rest =>
    have moved := unshared.advance session stopped s t
    rcases first : D.advance session stopped s with ⟨made, s'⟩
    rcases second : D.advance session stopped t with ⟨made', t'⟩
    rw [first, second] at moved
    cases moved
    simp only [step, first, second]
    cases made <;> rfl
  | entered | finished | died => rfl

/-- What a worker comes to by itself is on the way of its run. -/
theorem Alone.runFrom_eq {w worker : Worker D} {problem : D.Problem} {phase : RunPhase D}
    (alone : Alone w problem phase worker) (unshared : D.Unshared) (shared : σ) :
    ∃ steps after, ∀ fuel, w.run (fun _ => false) problem (steps + fuel) shared =
      runFrom (fun _ => false) problem fuel steps worker phase after := by
  -- What is shared may differ at every step of the way, the worker and its phase do not.
  induction alone with
  | entered =>
    refine ⟨0, shared, fun fuel => ?_⟩
    rw [Nat.zero_add]
    rfl
  | @step phase worker before alone goesOn ih =>
    obtain ⟨steps, after, same⟩ := ih
    refine ⟨steps + 1, (worker.step problem false phase after).2, fun fuel => ?_⟩
    rw [step_unshared unshared worker problem false phase before after, Nat.add_right_comm]
    refine (same (fuel + 1)).trans ?_
    simp only [runFrom, goesOn]

theorem Alone.ends {w worker : Worker D} {problem : D.Problem} {phase : RunPhase D}
    {ending : Except Panic (Verdict D.Artifact)} (alone : Alone w problem phase worker)
    (unshared : D.Unshared) (ended : RunPhase.ending? phase = some ending) :
    w.Ends problem ending := by
  intro shared
  obtain ⟨steps, after, same⟩ := alone.runFrom_eq unshared shared
  refine ⟨steps + 1, (worker, after), (same 1).trans ?_⟩
  simp only [runFrom, ended]

/-- More fuel does not change how a run ends. -/
theorem runFrom_mono {stops : Nat → Bool} {problem : D.Problem} {fuel n : Nat} {w : Worker D}
    {phase : RunPhase D} {shared : σ} {answer : Except Panic (Verdict D.Artifact) × Worker D × σ}
    (ends : runFrom stops problem fuel n w phase shared = some answer) (more : Nat) :
    runFrom stops problem (fuel + more) n w phase shared = some answer := by
  induction fuel generalizing n w phase shared with
  | zero => cases ends
  | succ fuel ih =>
    rw [Nat.add_right_comm]
    unfold runFrom at ends ⊢
    split at ends
    next => exact ends
    next => exact ih ends

/-- A worker comes to one end. -/
theorem Ends.unique {w : Worker D} {problem : D.Problem}
    {first second : Except Panic (Verdict D.Artifact)} (one : w.Ends problem first)
    (other : w.Ends problem second) (shared : σ) : first = second := by
  obtain ⟨fuel, after, ends⟩ := one shared
  obtain ⟨fuel', after', ends'⟩ := other shared
  have same := runFrom_mono ends fuel'
  rw [Nat.add_comm] at same
  exact congrArg Prod.fst (Option.some.inj (same.symm.trans (runFrom_mono ends' fuel)))

end Worker

end MotionRace
