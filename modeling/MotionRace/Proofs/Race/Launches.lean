import MotionRace.Proofs.Pool.Alone
import MotionRace.Proofs.Race.Flags
import MotionRace.Proofs.Race.Lost

/-!
# The workers that a race launches

A race launches a worker by starting a thread for its slot. From then on and until the race is
decided the slot is the thread's alone and its token is not stopped, so that the worker goes the way
it would go by itself, whatever calls and other threads do in between.
-/

namespace MotionRace

variable {σ : Type} {D : Domain σ}

/-- A worker that was launched: its slot, its thread and the worker as it was. -/
structure Launch {σ : Type} (D : Domain σ) where
  slot : Nat
  thread : Nat
  worker : Worker D

/-- Where the report of a launched worker is waited for. -/
def Launch.pending (launch : Launch D) : Pending := ⟨launch.worker.id, launch.thread⟩

/-- Whether an event is a refusal to start a thread for a call. -/
def Event.isRefusal (index : Nat) : Event D → Bool
  | .refuse mover => mover == index
  | _ => false

namespace Machine

/-- The worker of a slot. -/
def workerOf (m : Machine D) (slot : Nat) : Option (Worker D) := (m.slots[slot]?).map (·.worker)

/-- What an event launches for a call. -/
def launchesOf (index : Nat) (m : Machine D) (event : Event D) (_ : Machine D) : List (Launch D) :=
  match event, m.phaseOf index with
  | .call mover, .launching ((slot, _) :: _) .. =>
    if mover = index then
      ((m.workerOf slot).map fun worker => ⟨slot, m.threads.length, worker⟩).toList
    else []
  | _, _ => []

/-- Where the thread of a launched worker stands, as it would by itself. -/
def Follows (m : Machine D) (problem : D.Problem) (launch : Launch D) : ThreadPhase D → Prop
  | .starting => m.workerOf launch.slot = some launch.worker
  | .running phase =>
    ∃ worker, m.workerOf launch.slot = some worker ∧ launch.worker.Alone problem phase worker
  | .unlocked verdict => launch.worker.Ends problem (.ok verdict)
  | .freed verdict => launch.worker.Ends problem (.ok verdict)
  | .logged verdict => launch.worker.Ends problem (.ok verdict)
  | .reported verdict => launch.worker.Ends problem (.ok verdict)
  | .died panic => launch.worker.Ends problem (.error panic)

/-- A launched worker that is not asked to stop goes the way it would go by itself. -/
def Tracked (m : Machine D) (index : Nat) (problem : D.Problem) (launch : Launch D) : Prop :=
  ∃ thread, m.threads[launch.thread]? = some thread ∧ thread.call = index ∧
    thread.slot = launch.slot ∧ thread.problem = problem ∧
    m.flags.isStopped thread.token = false ∧ m.Follows problem launch thread.phase

section Moves

variable {m next effect : Machine D} {left : List Nat} {index slot : Nat} {problem : D.Problem}
  {event : Event D} {before after : CallPhase D} {launch : Launch D}

theorem workerOf_modify (m : Machine D) (changed slot : Nat) (change : Slot D → Slot D)
    (same : ∀ entry, (change entry).worker = entry.worker) :
    ({ m with slots := m.slots.modify changed change } : Machine D).workerOf slot =
      m.workerOf slot := by
  simp only [workerOf, List.getElem?_modify]
  cases m.slots[slot]? with
  | none => split <;> rfl
  | some entry =>
    split
    · exact congrArg some (same entry)
    · rfl

theorem CallMove.workerOf_eq (move : CallMove m index problem event before effect after)
    (slot : Nat) : effect.workerOf slot = m.workerOf slot := by
  cases move with
  | claims | handsBack | notStarted => exact workerOf_modify _ _ _ _ fun _ => rfl
  | declined => exact workerOf_modify _ _ _ _ fun _ => rfl
  | _ => rfl

/-- A thread changes no worker but the one it runs. -/
theorem ThreadMove.workerOf_eq {thread : Thread D} {housed : Slot D} {phase later : ThreadPhase D}
    (move : ThreadMove m index thread housed phase effect later)
    (apart : phase.holds = true → thread.slot ≠ slot) :
    effect.workerOf slot = m.workerOf slot := by
  cases move with
  | locks | finishes | dies | frees => exact workerOf_modify _ _ _ _ fun _ => rfl
  | runs =>
    simp only [workerOf, setWorker, List.getElem?_modify_ne _ _ (apart rfl)]
    rfl
  | logs | reports => rfl

/-- Nobody changes the worker of a slot but the thread that holds it. -/
theorem Balanced.workerOf_eq (balanced : Balanced m left) (move : Move m event next)
    {holder : Nat} (holds : m.Holds (.thread holder) slot) (other : event ≠ .thread holder) :
    next.workerOf slot = m.workerOf slot := by
  cases move with
  | arrives => rfl
  | ofCall there move => exact move.workerOf_eq slot
  | @ofThread mover thread housed effect _ there located move =>
    refine move.workerOf_eq fun works housed => ?_
    have also : m.Holds (.thread mover) slot := ⟨thread, there, works, housed⟩
    exact other (congrArg Event.thread (Party.thread.inj (balanced.holder_unique also holds)))
  | aborts => simp only [workerOf, slots_abort]

/-- While a race is in flight and not decided, no flag is raised but by an abort. -/
theorem Balanced.isStopped_eq (balanced : Balanced m left) (move : Move m event next)
    (calm : event ≠ .abort) (flying : m.InFlight index)
    (undecided : ∀ outcome, m.phaseOf index ≠ .signalling outcome) (token : Token) :
    next.flags.isStopped token = m.flags.isStopped token := by
  cases move with
  | arrives => rfl
  | @ofCall mover _ _ before _ _ there move =>
    refine move.isStopped_eq (fun outcome signals => ?_) token
    subst signals
    obtain rfl := balanced.flight_unique ⟨_, there, rfl⟩ flying
    exact undecided outcome (phaseOf_eq there)
  | @ofThread _ _ _ effect _ there located move =>
    change effect.flags.isStopped token = m.flags.isStopped token
    rw [move.flags_eq]
  | aborts => exact absurd rfl calm

/-- What follows its way by itself does so as long as its worker is left alone. -/
theorem Follows.mono {thread : Thread D} (follows : m.Follows problem launch thread.phase)
    (same : thread.phase.holds = true → next.workerOf launch.slot = m.workerOf launch.slot) :
    next.Follows problem launch thread.phase := by
  cases phase : thread.phase with
  | starting =>
    rw [phase] at follows same
    exact (same rfl).trans follows
  | running run =>
    rw [phase] at follows same
    obtain ⟨worker, now, alone⟩ := follows
    exact ⟨worker, (same rfl).trans now, alone⟩
  | _ =>
    rw [phase] at follows
    exact follows

/-- A step of a launched worker's own thread is the step it would take by itself. -/
theorem ThreadMove.follows {thread : Thread D} {housed : Slot D} {phase later : ThreadPhase D}
    (move : ThreadMove m index thread housed phase effect later) (unshared : D.Unshared)
    (there : m.slots[thread.slot]? = some housed) (own : thread.slot = launch.slot)
    (calm : m.flags.isStopped thread.token = false)
    (follows : m.Follows thread.problem launch phase) :
    effect.Follows thread.problem launch later := by
  cases move with
  | locks =>
    have same := workerOf_modify m thread.slot launch.slot (fun s => { s with locked := true })
      fun _ => rfl
    exact ⟨launch.worker, same.trans follows, .entered⟩
  | runs goesOn =>
    obtain ⟨worker, now, alone⟩ := follows
    obtain rfl : housed.worker = worker := by
      rw [← own, workerOf, there] at now
      exact Option.some.inj now
    rw [calm]
    refine ⟨_, ?_, alone.step m.shared goesOn⟩
    simp only [workerOf, setWorker, share, ← own, List.getElem?_modify, there, if_true,
      Option.map_eq_map, Option.map_some]
  | finishes | dies =>
    obtain ⟨worker, now, alone⟩ := follows
    exact alone.ends unshared rfl
  | frees | logs | reports => exact follows

/-- While its race is in flight and not decided, a launched worker stays tracked. -/
theorem Tracked.move (tracked : m.Tracked index problem launch) (unshared : D.Unshared)
    (balanced : Balanced m left) (move : Move m event next)
    (calm : ∀ token, next.flags.isStopped token = m.flags.isStopped token) :
    next.Tracked index problem launch := by
  obtain ⟨thread, there, call, own, same, unstopped, follows⟩ := tracked
  by_cases mine : event = .thread launch.thread
  · cases move with
    | @ofThread mover mover' housed effect later there' located move =>
      obtain rfl : mover = launch.thread := Event.thread.inj mine
      obtain rfl : mover' = thread := Option.some.inj (there'.symm.trans there)
      subst same
      exact ⟨_, threads_setThread_self move.threads_eq there later, call, own, rfl,
        (calm _).trans unstopped, move.follows unshared located own unstopped follows⟩
    | ofCall _ move => cases move <;> cases mine
    | _ => cases mine
  · refine ⟨thread, move.threads_eq there mine, call, own, same, (calm _).trans unstopped,
      follows.mono fun holds => ?_⟩
    exact balanced.workerOf_eq move ⟨thread, there, holds, own⟩ mine

/-- A worker that was just launched is tracked. -/
theorem tracked_addThread (index : Nat) (problem : D.Problem) {token : Token} {worker : Worker D}
    (housed : m.workerOf slot = some worker) (calm : m.flags.isStopped token = false)
    (after : CallPhase D) :
    ((m.addThread { call := index, slot, problem, token }).setCall index after).Tracked index
      problem ⟨slot, m.threads.length, worker⟩ := by
  refine ⟨{ call := index, slot, problem, token }, ?_, rfl, rfl, rfl, calm, housed⟩
  simp only [setCall, addThread, List.getElem?_concat_length]

theorem launchesOf_launching {token : Token} {rest : List (Nat × Token)}
    {places : List (Option Pending)} {failures count : Nat} {abort : Token} {worker : Worker D}
    (now : m.phaseOf index = .launching ((slot, token) :: rest) places failures count abort)
    (housed : m.workerOf slot = some worker) :
    launchesOf index m (.call index) next = [⟨slot, m.threads.length, worker⟩] := by
  simp only [launchesOf, now, if_true, housed, Option.map_some, Option.toList_some]

/-- The report of a worker is waited for in the place that its launch adds. -/
theorem nextPlace_eq {worker : Worker D} (housed : m.workerOf slot = some worker) :
    m.nextPlace slot = some (Launch.pending ⟨slot, m.threads.length, worker⟩) := by
  obtain ⟨entry, there, rfl⟩ := Option.map_eq_some_iff.mp housed
  simp only [nextPlace, there, Option.map_some, Launch.pending]

/-! ## What the collector sees -/

/-- A launched worker that the race counts as failed: by itself it fails as well, or the panic that
took its thread down takes it down as well. -/
def Failed (m : Machine D) (index : Nat) (problem : D.Problem) (launch : Launch D) : Prop :=
  (∃ reason, launch.worker.Ends problem (.ok (.failure reason))) ∨
    ∃ thread panic, m.threads[launch.thread]? = some thread ∧ thread.call = index ∧
      thread.phase = .died panic ∧ launch.worker.Ends problem (.error panic)

theorem Failed.move (failed : m.Failed index problem launch) (move : Move m event next) :
    next.Failed index problem launch := by
  rcases failed with fails | ⟨thread, panic, there, call, died, ends⟩
  · exact .inl fails
  · have down : thread.phase.isDown = true := by rw [died]; rfl
    exact .inr ⟨thread, panic, move.down_stays there down, call, died, ends⟩

/-- The report of a launched worker is what it comes to by itself. -/
theorem Tracked.ends_of_look (tracked : m.Tracked index problem launch)
    {verdict : Verdict D.Artifact} (seen : m.look launch.pending = .ready verdict) :
    launch.worker.Ends problem (.ok verdict) := by
  obtain ⟨⟨call, slot, problem, token, phase⟩, there, -, -, -, -, follows⟩ := tracked
  simp only [look, Launch.pending, there] at seen
  cases phase with
  | reported verdict => cases seen; exact follows
  | _ => cases seen

theorem Tracked.failed_of_look (tracked : m.Tracked index problem launch)
    (seen : (∃ reason, m.look launch.pending = .ready (.failure reason)) ∨
      m.look launch.pending = .vanished) : m.Failed index problem launch := by
  rcases seen with ⟨reason, seen⟩ | seen
  · exact .inl ⟨reason, tracked.ends_of_look seen⟩
  · obtain ⟨⟨call, slot, problem, token, phase⟩, there, mine, -, -, -, follows⟩ := tracked
    simp only [look, Launch.pending, there] at seen
    cases phase with
    | died panic => exact .inr ⟨_, panic, there, mine, rfl, follows⟩
    | _ => cases seen

end Moves

end Machine

end MotionRace
