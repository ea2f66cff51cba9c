import MotionRace.Planner.Domain
import MotionRace.Proofs.Race.Lost

/-!
# The pool between two races

What a race finds when it begins depends on how the races before it ended. Where workers only ever
panic inside a solve, every worker that nobody runs is asked again. A worker whose question panics
takes down the call that asks it, and the slots claimed by then are never asked again; a worker
whose world panics when it is copied takes down its thread, and its slot is never asked again
either.
-/

namespace MotionRace

variable {σ : Type} {D : Domain σ}

namespace Machine

/-- Between two races a slot is marked exactly when a thread is at work for it or it is lost. Of the
slots that nobody works for, the next race asks those that are not lost and reports as busy those
that are. -/
theorem slots_between_races {workers : List (Worker D)} {waits : Waits} {logs : Bool} {shared : σ}
    {events : List (Event D)} {m : Machine D}
    (run : (ofWorkers workers waits logs shared).steps events = some m)
    (idle : m.isRacing = false) :
    let left := (ofWorkers workers waits logs shared).record forsaken events
    (∀ slot, m.isBusy slot = true ↔ m.Works slot ∨ m.Lost left slot) ∧
    ∀ index during later, m.phaseOf index = .arriving →
      m.steps (.call index :: during) = some later →
      let asked := m.askedBy index (.call index :: during)
      let passed := m.passedBy index (.call index :: during)
      (∀ slot, ¬ m.Works slot → (slot ∈ asked → ¬ m.Lost left slot) ∧
        (slot ∈ passed → m.Lost left slot)) ∧
      ∀ ending, later.ending? index = some ending → (∀ panic, ending ≠ .panicked panic) →
        (∀ slot < workers.length, ¬ m.Works slot →
          (slot ∈ asked ↔ ¬ m.Lost left slot) ∧ (slot ∈ passed ↔ m.Lost left slot)) ∧
        passed.Nodup ∧ ∀ busy, ending = .refused (.workersBusy busy) → busy = passed.length := by
  intro left
  have balanced := balanced_of_steps run
  refine ⟨fun slot => balanced.busy_iff_of_idle idle, ?_⟩
  intro index during later new more asked passed
  refine ⟨(balanced.next_pass idle new more).2, ?_⟩
  intro ending ended whole
  rw [← length_of_steps run]
  exact balanced.next_pass_ended idle new more ended whole

/-- A worker that panics when it is first asked, and one that solves at once. -/
def firstPanics : Scripted.Script Nat Nat :=
  { acts := [[.panicEligibility, .succeed 5 0], [.succeed 6 0]] }

/-- The first worker takes a race down, and the next call arrives. -/
def takenDown : List (Event firstPanics.domain) :=
  [Event.arrive (0 : Nat)] ++ List.replicate 4 (Event.call 0) ++ [Event.arrive (1 : Nat)]

/-- The second worker wins the next race once it has begun. -/
def wonByTheSecond : List (Event firstPanics.domain) :=
  List.replicate 8 (Event.call 1) ++ List.replicate 8 (Event.thread 0) ++
    List.replicate 4 (Event.call 1)

theorem slots_after_a_race_was_taken_down :
    ∃ m later, (firstPanics.coordinator { poll := 0, busy := 0 }).steps takenDown = some m ∧
      m.steps (.call 1 :: wonByTheSecond) = some later ∧
      ¬ m.Works 0 ∧ m.isBusy 0 = true ∧ 0 ∈ m.passedBy 1 (.call 1 :: wonByTheSecond) ∧
      ¬ m.Works 1 ∧ m.isBusy 1 = false ∧ 1 ∈ m.askedBy 1 (.call 1 :: wonByTheSecond) := by
  obtain ⟨m, later, run, more, idle, new, ending, ended, whole, threadless, busy, free⟩ :
      ∃ m later, (firstPanics.coordinator { poll := 0, busy := 0 }).steps takenDown = some m ∧
        m.steps (.call 1 :: wonByTheSecond) = some later ∧ m.isRacing = false ∧
        m.phaseOf 1 = .arriving ∧ ∃ ending, later.ending? 1 = some ending ∧
        (∀ panic, ending ≠ .panicked panic) ∧ m.threads = [] ∧ m.isBusy 0 = true ∧
        m.isBusy 1 = false :=
    ⟨_, _, rfl, rfl, rfl, rfl, _, rfl, nofun, rfl, rfl, rfl⟩
  have unused (slot : Nat) : ¬ m.Works slot := by
    rintro ⟨index, thread, there, -⟩
    rw [threadless, List.getElem?_nil] at there
    cases there
  obtain ⟨marks, found⟩ := slots_between_races run idle
  obtain ⟨dealt, -⟩ := (found 1 _ later new more).2 ending ended whole
  have lost := ((marks 0).mp busy).resolve_left (unused 0)
  refine ⟨m, later, run, more, unused 0, busy, (dealt 0 (by decide) (unused 0)).2.mpr lost,
    unused 1, free, (dealt 1 (by decide) (unused 1)).1.mpr fun lost => ?_⟩
  exact absurd ((marks 1).mpr (.inr lost)) (Bool.eq_false_iff.mp free)

/-- A worker that panics when it is first asked. -/
def onlyPanics : Scripted.Script Nat Nat := { acts := [[.panicEligibility, .succeed 5 0]] }

/-- A slot can stay marked with no thread in the program, and the next race reports it as busy. -/
theorem exists_busy_without_thread :
    ∃ m later, (onlyPanics.coordinator { poll := 0, busy := 0 }).steps
        ([Event.arrive (0 : Nat)] ++ List.replicate 4 (Event.call 0)) = some m ∧
      m.ending? 0 = some (.panicked ⟨"eligibility"⟩) ∧ m.isRacing = false ∧ m.threads = [] ∧
      m.isBusy 0 = true ∧
      m.steps ([Event.arrive (1 : Nat)] ++ List.replicate 4 (Event.call 1)) = some later ∧
      later.ending? 1 = some (.refused (.workersBusy 1)) :=
  ⟨_, _, rfl, rfl, rfl, rfl, rfl, rfl, rfl⟩

end Machine

/-- A domain whose foreign code panics nowhere but inside a solve. -/
structure Domain.Contained (D : Domain σ) : Prop where
  asks : ∀ solver problem shared panic, (D.asks solver problem shared).1 ≠ .panics panic
  copy : ∀ world shared panic, (D.copy world shared).1 ≠ .error panic

theorem planning_contained : planning.Contained where
  asks solver problem shared panic := by
    simp only [planning]
    split <;> exact nofun
  copy _ _ _ := nofun

/-- Whether a panic outside the solve took a run down. -/
def RunPhase.isDown : RunPhase D → Bool
  | .died _ => true
  | _ => false

/-- Whether a thread in a phase was taken down, or is about to be. -/
def ThreadPhase.isDoomed : ThreadPhase D → Bool
  | .running phase => phase.isDown
  | .died _ => true
  | _ => false

section Contained

variable (contained : D.Contained)
include contained

theorem Worker.step_not_down (w : Worker D) (problem : D.Problem) (stopped : Bool)
    {phase : RunPhase D} (shared : σ) (sound : phase.isDown = false) :
    (w.step problem stopped phase shared).1.1.isDown = false := by
  cases phase with
  | entered => cases stopped <;> rfl
  | copying =>
    have copied := contained.copy w.world shared
    rcases made : D.copy w.world shared with ⟨panic | failure | scratch, after⟩
    · exact absurd (congrArg Prod.fst made) (copied panic)
    · simp only [step, made]
      rfl
    · simp only [step, made]
      rfl
  | solving session rest =>
    rcases moved : D.advance session stopped shared with ⟨session | result, after⟩ <;>
      simp only [step, moved] <;> rfl
  | finished verdict => rfl
  | died panic => cases sound

namespace Machine

variable {m next effect : Machine D} {event : Event D}

theorem Move.forsaken_eq_nil (move : Move m event next) : m.forsaken event next = [] := by
  cases move with
  | ofCall there move =>
    rw [forsaken_call there move]
    cases move with
    | claimsOver => exact forsakes_afterClaims ..
    | panics _ _ down => exact absurd down (contained.asks _ _ _ _)
    | _ => rfl
  | _ => rfl

theorem ThreadMove.not_doomed {index : Nat} {thread : Thread D} {slot : Slot D}
    {phase later : ThreadPhase D} (move : ThreadMove m index thread slot phase effect later)
    (sound : phase.isDoomed = false) : later.isDoomed = false := by
  cases move with
  | runs => exact Worker.step_not_down contained _ _ _ _ sound
  | dies => cases sound
  | _ => rfl

theorem Move.not_doomed (move : Move m event next)
    (sound : ∀ (index : Nat) (thread : Thread D), m.threads[index]? = some thread →
      thread.phase.isDoomed = false) {index : Nat} {thread : Thread D}
    (there : next.threads[index]? = some thread) : thread.phase.isDoomed = false := by
  cases move with
  | arrives => exact sound index thread there
  | @ofCall _ _ _ _ effect _ _ move =>
    change effect.threads[index]? = some thread at there
    rcases move.threads_cases with same | ⟨_, _, _, _, _, _, _, -, rfl⟩
    · exact sound index thread (same ▸ there)
    · simp only [addThread, List.getElem?_append] at there
      split at there
      · exact sound index thread there
      · rw [List.getElem?_singleton] at there
        split at there <;> cases there
        rfl
  | @ofThread mover _ _ _ _ there' housed move =>
    by_cases same : mover = index
    · subst same
      rw [threads_setThread_self move.threads_eq there'] at there
      cases there
      exact move.not_doomed contained (sound _ _ there')
    · rw [threads_setThread_ne move.threads_eq same] at there
      exact sound index thread there
  | aborts =>
    rw [threads_abort] at there
    exact sound index thread there

theorem forsaken_eq_nil_of_steps {start : Machine D} {events : List (Event D)}
    (run : start.steps events = some m) : start.record forsaken events = [] := by
  induction events, m, run using steps_induction with
  | nothing => exact record_nil start
  | more events m event next run step ih =>
    rw [record_concat run step, ih, (move_of_step step).forsaken_eq_nil contained, List.append_nil]

theorem not_doomed_of_steps {workers : List (Worker D)} {waits : Waits} {logs : Bool} {shared : σ}
    {events : List (Event D)} (run : (ofWorkers workers waits logs shared).steps events = some m)
    {index : Nat} {thread : Thread D} (there : m.threads[index]? = some thread) :
    thread.phase.isDoomed = false := by
  induction events, m, run using steps_induction generalizing index thread with
  | nothing => cases there
  | more events m event next run step ih =>
    exact (move_of_step step).not_doomed contained (fun _ _ there => ih there) there

/-- Where panics are contained no slot is ever lost. -/
theorem not_lost_of_contained {workers : List (Worker D)} {waits : Waits} {logs : Bool} {shared : σ}
    {events : List (Event D)} (run : (ofWorkers workers waits logs shared).steps events = some m)
    (slot : Nat) :
    ¬ m.Lost ((ofWorkers workers waits logs shared).record forsaken events) slot := by
  rintro (left | ⟨index, thread, there, -, down⟩)
  · rw [forsaken_eq_nil_of_steps contained run] at left
    exact absurd left List.not_mem_nil
  · have sound := not_doomed_of_steps contained run there
    cases phase : thread.phase with
    | died => simp [phase, ThreadPhase.isDoomed] at sound
    | _ => simp [phase, ThreadPhase.isDown] at down

/-- Where panics are contained, a slot is marked between two races exactly when a thread is at work
for it. The next race asks every other slot, and reports none of them as busy. -/
theorem every_idle_worker_is_asked {workers : List (Worker D)} {waits : Waits} {logs : Bool}
    {shared : σ} {events during : List (Event D)} {later : Machine D} {index : Nat}
    {ending : Ending D.Artifact}
    (run : (ofWorkers workers waits logs shared).steps events = some m)
    (idle : m.isRacing = false) (new : m.phaseOf index = .arriving)
    (more : m.steps (.call index :: during) = some later)
    (ended : later.ending? index = some ending) (whole : ∀ panic, ending ≠ .panicked panic) :
    (∀ slot, m.isBusy slot = true ↔ m.Works slot) ∧
      ∀ slot < workers.length, ¬ m.Works slot →
        slot ∈ m.askedBy index (.call index :: during) ∧
          slot ∉ m.passedBy index (.call index :: during) := by
  have balanced := balanced_of_steps run
  have kept := not_lost_of_contained contained run
  constructor
  · intro slot
    rw [balanced.busy_iff_of_idle idle]
    exact or_iff_left (kept slot)
  · intro slot inside unused
    rw [← length_of_steps run] at inside
    obtain ⟨asked, passed⟩ :=
      (balanced.next_pass_ended idle new more ended whole).1 slot inside unused
    exact ⟨asked.mpr (kept slot), fun passes => kept slot (passed.mp passes)⟩

end Machine

end Contained

end MotionRace
