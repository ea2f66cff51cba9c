import MotionRace.Proofs.Race.Holders

/-!
# Single flight and exclusive use of workers

Whatever callers, threads and aborts do and in whatever order: one call at a time has the racing
flag, one thread at a time runs the worker of a slot, a claim is given up by its holder only, and a
call that has just claimed a slot finds its worker unlocked.
-/

namespace MotionRace

namespace Machine

variable {σ : Type} {D : Domain σ}

/-- The racing flag, the claims of slots and the locks of workers, at every moment of every history
of a coordinator. -/
theorem single_flight_and_exclusive_use {workers : List (Worker D)} {waits : Waits} {logs : Bool}
    {shared : σ} {events : List (Event D)} {m : Machine D}
    (run : (ofWorkers workers waits logs shared).steps events = some m) :
    -- The racing flag is up exactly while one call is between taking it and giving it back.
    ((m.isRacing = true ↔ ∃ index, m.InFlight index) ∧
      ∀ first second, m.InFlight first → m.InFlight second → first = second) ∧
    -- At most one thread of a slot has started and not freed it, and the slot is marked meanwhile.
    (∀ slot first second, m.Holds (.thread first) slot → m.Holds (.thread second) slot →
      first = second) ∧
    (∀ slot index, m.Holds (.thread index) slot → m.isBusy slot = true) ∧
    -- Whoever frees a slot is its one holder, and a holder only ever follows one of its own race.
    (∀ event next slot, m.step event = some next → m.isBusy slot = true →
      next.isBusy slot = false →
      ∃ party, event.party? = some party ∧ m.Holds party slot ∧
        ∀ other, m.Holds other slot → other = party) ∧
    (∀ event next slot before after, m.step event = some next → m.Holds before slot →
      next.Holds after slot → m.raceOf before = next.raceOf after) ∧
    -- A slot that can be claimed has no holder and an unlocked worker, so that asking never waits.
    (∀ slot, m.isBusy slot = false →
      (∀ party, ¬ m.Holds party slot) ∧ m.isLocked slot = false) ∧
    (∀ index problem slot claimed busy,
      m.calls[index]? = some ⟨problem, .asking slot claimed busy⟩ →
      m.isLocked slot = false ∧ ∃ next, m.step (.call index) = some next) := by
  have balanced := balanced_of_steps run
  refine ⟨⟨balanced.racing_iff, fun _ _ => balanced.flight_unique⟩, ?_, ?_, ?_, ?_, ?_, ?_⟩
  · intro slot first second one other
    exact Party.thread.inj (balanced.holder_unique one other)
  · intro slot index holds
    exact (balanced.busy_of_holds holds).1
  · intro event next slot step busy free
    obtain ⟨party, acts, holds⟩ := balanced.holds_of_frees (move_of_step step) busy free
    exact ⟨party, acts, holds, fun other also => balanced.holder_unique also holds⟩
  · intro event next slot before after step one other
    exact balanced.race_of_holds (move_of_step step) one other
  · intro slot free
    exact balanced.idle_of_free free
  · intro index problem slot claimed busy there
    obtain ⟨entry, housed, unlocked⟩ := balanced.unlocked_of_asking there
    refine ⟨by simp [isLocked, housed, unlocked], m.ask index problem slot claimed busy entry, ?_⟩
    simp [step, stepCall, there, housed, unlocked]

/-- One worker that heeds no stop, and one that solves at once. -/
def deafAndQuick : Scripted.Script Nat Nat := { acts := [[.holdDeaf 7], [.succeed 5 0]] }

/-- The quick worker wins a race while the deaf one goes on, and the next call claims the quick one
again. -/
def nextBesideALoser : List (Event deafAndQuick.domain) :=
  [Event.arrive (0 : Nat)] ++ List.replicate 11 (Event.call 0) ++
    List.replicate 8 (Event.thread 1) ++ List.replicate 4 (Event.thread 0) ++
    List.replicate 5 (Event.call 0) ++ [Event.arrive (1 : Nat)] ++ List.replicate 3 (Event.call 1)

theorem single_flight_beside_a_loser :
    ∃ m, (deafAndQuick.coordinator { poll := 0, busy := 0 }).steps nextBesideALoser = some m ∧
      (m.InFlight 1 ∧ ∀ index, m.InFlight index → index = 1) ∧
      (m.Holds (.thread 0) 0 ∧ ∀ index, m.Holds (.thread index) 0 → index = 0) ∧
      m.Holds (.call 1) 1 ∧ m.isBusy 0 = true ∧ m.isLocked 1 = false := by
  obtain ⟨m, run, flying, works, claims, there⟩ :
      ∃ m, (deafAndQuick.coordinator { poll := 0, busy := 0 }).steps nextBesideALoser = some m ∧
        m.InFlight 1 ∧ m.Holds (.thread 0) 0 ∧ m.Holds (.call 1) 1 ∧
        m.calls[1]? = some ⟨(1 : Nat), .asking 1 [] 1⟩ :=
    ⟨_, rfl, ⟨_, rfl, rfl⟩, ⟨_, rfl, rfl, rfl⟩, ⟨_, rfl, List.mem_singleton.mpr rfl⟩, rfl⟩
  obtain ⟨⟨-, alone⟩, exclusive, marked, -, -, -, unlocked⟩ := single_flight_and_exclusive_use run
  exact ⟨m, run, ⟨flying, fun index also => alone _ _ also flying⟩,
    ⟨works, fun index also => exclusive _ _ _ also works⟩, claims, marked _ _ works,
    (unlocked _ _ _ _ _ there).1⟩

end Machine

end MotionRace
