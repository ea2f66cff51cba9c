import MotionRace.Proofs.Race.Tally

/-!
# A race refines solo runs

However the calling thread and the workers are interleaved, a race that nobody calls off comes to
what the workers it launched come to by themselves: it succeeds with what one of them yields when it
is run alone from the state it was launched in and never asked to stop, and it is lost only if every
one of them fails.
-/

namespace MotionRace

variable {σ : Type} {D : Domain σ}

namespace Machine

/-- The workers that a call launches in a history, as they are when they are launched. -/
def launchedBy (start : Machine D) (index : Nat) (events : List (Event D)) : List (Worker D) :=
  (start.record (launchesOf index) events).map (·.worker)

/-- A success is that of a launched worker by itself. A race is lost only if it launched a worker
and every worker it launched fails by itself, and never if one of them succeeds by itself. -/
theorem race_refines_solo_runs (unshared : D.Unshared) {workers : List (Worker D)} {waits : Waits}
    {logs : Bool} {shared : σ} {before during : List (Event D)} {m later : Machine D} {index : Nat}
    {problem : D.Problem} (run : (ofWorkers workers waits logs shared).steps before = some m)
    (new : m.calls[index]? = some ⟨problem, .arriving⟩) (more : m.steps during = some later)
    (calm : ∀ event ∈ during, event ≠ .abort) :
    (∀ id artifact, later.ending? index = some (.outcome (.succeeded id artifact)) →
      ∃ worker ∈ m.launchedBy index during, worker.id = id ∧
        worker.Ends problem (.ok (.success artifact))) ∧
    (later.ending? index = some (.outcome .allFailed) →
      -- Every thread starts, and none is taken down outside its solve.
      (∀ event ∈ during, event.isRefusal index = false) →
      (∀ thread ∈ later.threads, thread.call = index → thread.phase.isDown = false) →
      m.launchedBy index during ≠ [] ∧ ∀ worker ∈ m.launchedBy index during,
        ∃ reason, worker.Ends problem (.ok (.failure reason))) ∧
    (∀ worker ∈ m.launchedBy index during, ∀ artifact,
      worker.Ends problem (.ok (.success artifact)) →
      later.ending? index ≠ some (.outcome .allFailed)) := by
  obtain ⟨phase, there, tracks⟩ := tracks_of_steps (balanced_of_steps run) unshared new calm more
  have justified {ending : Ending D.Artifact} (ended : later.ending? index = some ending) :
      later.Justifies index problem (m.record (launchesOf index) during)
        (during.countP (Event.isRefusal index)) ending := by
    rw [← phaseOf_eq there, phaseOf_of_ending ended] at tracks
    exact tracks
  refine ⟨fun id artifact won => ?_, fun lost started normal => ?_,
    fun worker launched artifact succeeds lost => ?_⟩
  · obtain ⟨launch, listed, named, ends⟩ := justified won
    exact ⟨launch.worker, List.mem_map_of_mem listed, named, ends⟩
  · obtain ⟨raced, failed⟩ := justified lost
    constructor
    · have unrefused : during.countP (Event.isRefusal index) = 0 :=
        List.countP_eq_zero.mpr fun event listed => Bool.eq_false_iff.mp (started event listed)
      exact fun nothing => raced unrefused (List.map_eq_nil_iff.mp nothing)
    · intro worker launched
      obtain ⟨launch, listed, rfl⟩ := List.mem_map.mp launched
      rcases failed launch listed with fails | ⟨thread, panic, there, call, died, -⟩
      · exact fails
      · have up := normal thread (List.mem_of_getElem? there) call
        rw [died] at up
        cases up
  · obtain ⟨launch, listed, rfl⟩ := List.mem_map.mp launched
    rcases (justified lost).2 launch listed with ⟨reason, fails⟩ | ⟨thread, panic, -, -, -, ends⟩
    · cases fails.unique succeeds m.shared
    · cases ends.unique succeeds m.shared

/-- A worker for an arm of one joint that turns up to a limit. -/
def armWorker (id : Nat) (limit : Float) : Worker planning where
  id
  solver := { settings := { resolution := 1 }, stream := .ofSeed 0, limits := [(-limit, limit)] }
  world :=
    { name := "arm", joints := [{ name := "j0", length := 1, lower := -limit, upper := limit }] }
  backend := { obstacles := [] }
  seed := some 0

/-- Two arms, the first of which turns too little for `halfWay`. -/
def twoArms : Machine planning :=
  .ofWorkers [armWorker 0 0.25, armWorker 1 1] { poll := 0, busy := 0 } false (.ofSeed 0)

def halfWay : Problem := .toConfiguration [0] [0.5]

/-- The first arm reports before the second has begun. -/
def oneAfterTheOther : List (Event planning) :=
  List.replicate 11 (Event.call 0) ++ List.replicate 8 (Event.thread 0) ++
    List.replicate 10 (Event.thread 1) ++ List.replicate 5 (Event.call 0)

/-- Whether a call was won by the worker of an id. -/
def isWonBy (m : Machine D) (index id : Nat) : Bool :=
  match m.ending? index with
  | some (.outcome (.succeeded worker _)) => worker == id
  | _ => false

theorem exists_artifact_of_isWonBy {m : Machine D} {index id : Nat}
    (won : m.isWonBy index id = true) :
    ∃ artifact, m.ending? index = some (.outcome (.succeeded id artifact)) := by
  unfold isWonBy at won
  split at won
  next worker artifact ended => exact ⟨artifact, eq_of_beq won ▸ ended⟩
  next => cases won

theorem solo_run_of_the_second_arm :
    ∃ m later artifact, twoArms.steps [Event.arrive halfWay] = some m ∧
      m.steps oneAfterTheOther = some later ∧
      later.ending? 0 = some (.outcome (.succeeded 1 artifact)) ∧
      ∃ worker ∈ m.launchedBy 0 oneAfterTheOther, worker.id = 1 ∧
        worker.Ends halfWay (.ok (.success artifact)) := by
  obtain ⟨m, run, new, wins⟩ : ∃ m, twoArms.steps [Event.arrive halfWay] = some m ∧
      m.calls[0]? = some ⟨halfWay, .arriving⟩ ∧
      (m.steps oneAfterTheOther).any (·.isWonBy 0 1) = true :=
    ⟨_, rfl, rfl, by decide +kernel⟩
  obtain ⟨later, more, won⟩ := (Option.any_eq_true ..).mp wins
  obtain ⟨artifact, ended⟩ := exists_artifact_of_isWonBy won
  have calm (event : Event planning) (listed : event ∈ oneAfterTheOther) : event ≠ .abort := by
    rintro rfl
    simp [oneAfterTheOther] at listed
  exact ⟨m, later, artifact, run, more, ended,
    (race_refines_solo_runs planning_unshared run new more calm).1 1 artifact ended⟩

end Machine

end MotionRace
