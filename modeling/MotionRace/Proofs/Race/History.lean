import Mathlib.Data.List.Induction
import MotionRace.Proofs.Race.Moves
import MotionRace.Scripted.Domain

/-!
# Histories of a machine

A history is a list of events that can happen one after another. What is shown of the start and
kept by every step holds at the end (`steps_induction`). Some facts are about what happened on the
way and not about where it led: `record` asks every event of a history for something and keeps the
answers in order.
-/

namespace MotionRace.Machine

variable {σ : Type} {D : Domain σ}

theorem steps_append (m : Machine D) (first second : List (Event D)) :
    m.steps (first ++ second) = (m.steps first).bind (·.steps second) :=
  List.foldlM_append

theorem steps_cons (m : Machine D) (event : Event D) (rest : List (Event D)) :
    m.steps (event :: rest) = (m.step event).bind (·.steps rest) :=
  rfl

/-- One more event after a history. -/
theorem steps_concat {start m next : Machine D} {events : List (Event D)} {event : Event D}
    (run : start.steps events = some m) (step : m.step event = some next) :
    start.steps (events ++ [event]) = some next := by
  rw [steps_append, run, Option.bind_some]
  simp only [steps, List.foldlM_cons, List.foldlM_nil, step, Option.bind_eq_bind, Option.bind_some,
    Option.pure_def]

/-- A history that ends with an event came to that event. -/
theorem exists_step_of_steps_concat {start next : Machine D} {events : List (Event D)}
    {event : Event D} (run : start.steps (events ++ [event]) = some next) :
    ∃ m, start.steps events = some m ∧ m.step event = some next := by
  rw [steps_append] at run
  obtain ⟨m, before, last⟩ := Option.bind_eq_some_iff.mp run
  refine ⟨m, before, ?_⟩
  simpa only [steps, List.foldlM_cons, List.foldlM_nil, Option.bind_eq_bind, Option.pure_def,
    Option.bind_fun_some] using last

/-- What holds at the start and is kept by every step of a history holds at its end. -/
@[elab_as_elim]
theorem steps_induction {start : Machine D}
    {motive : (events : List (Event D)) → (m : Machine D) → start.steps events = some m → Prop}
    (nothing : motive [] start rfl)
    (more : ∀ events m event next (run : start.steps events = some m)
      (step : m.step event = some next), motive events m run →
      motive (events ++ [event]) next (steps_concat run step))
    (events : List (Event D)) (m : Machine D) (run : start.steps events = some m) :
    motive events m run := by
  induction events using List.reverseRecOn generalizing m with
  | nil => cases run; exact nothing
  | append_singleton events event ih =>
    obtain ⟨mid, before, last⟩ := exists_step_of_steps_concat run
    exact more events mid event m before last (ih mid before)

/-- What the events of a history yield, in order. An event is asked together with the machine before
and after it. -/
def record {α : Type} (yield : Machine D → Event D → Machine D → List α) (m : Machine D) :
    List (Event D) → List α
  | [] => []
  | event :: rest =>
    match m.step event with
    | none => []
    | some next => yield m event next ++ record yield next rest

section Record

variable {α : Type} {yield : Machine D → Event D → Machine D → List α}

@[simp] theorem record_nil (m : Machine D) : m.record yield [] = [] := rfl

theorem record_append {start m : Machine D} {events : List (Event D)}
    (run : start.steps events = some m) (more : List (Event D)) :
    start.record yield (events ++ more) = start.record yield events ++ m.record yield more := by
  induction events generalizing start with
  | nil => cases run; rfl
  | cons event rest ih =>
    obtain ⟨mid, step, run⟩ := Option.bind_eq_some_iff.mp run
    simp only [List.cons_append, record, step, ih run, List.append_assoc]

/-- One more event adds what it yields. -/
theorem record_concat {start m next : Machine D} {events : List (Event D)} {event : Event D}
    (run : start.steps events = some m) (step : m.step event = some next) :
    start.record yield (events ++ [event]) = start.record yield events ++ yield m event next := by
  rw [record_append run]
  simp only [record, step, List.append_nil]

end Record

end MotionRace.Machine

namespace MotionRace.Scripted

/-- A coordinator of a script: one worker for each part, on a world without values. -/
def Script.coordinator (s : Script Nat Nat) (waits : Waits) : Machine s.domain :=
  .ofWorkers ((List.range s.acts.length).map fun index =>
    { id := index, solver := { index }, world := { values := [] },
      backend := { name := "fixture", limit := 0 }, seed := none }) waits false
    (.ofLength s.acts.length)

end MotionRace.Scripted
