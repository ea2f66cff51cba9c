import MotionRace.Pool.Provision

/-!
# What a domain is asked to do

A domain whose shared state also keeps a journal: every copy, binding, question and start of a solve
is written down in order. Apart from the journal nothing changes, neither for a pool that is built
nor for a worker that is run, so the journal of a run tells how often its own domain was asked for
what. Moving a solve on is part of the solve and is not written down.

Main statements: `provision_journaled`, `Worker.run_journaled`.
-/

namespace MotionRace

variable {σ : Type} {D : Domain σ}

/-- Something that a domain is asked to do. -/
inductive Domain.Call (D : Domain σ) where
  | copies (world : D.World)
  | binds (template : D.Solver) (world : D.World) (seed : Option UInt64)
  | asks (solver : D.Solver) (problem : D.Problem)
  | starts (solver : D.Solver) (problem : D.Problem) (world : D.World) (backend : D.Backend)

/-- The domain with a journal of what it is asked to do. -/
@[reducible] def Domain.journaled (D : Domain σ) : Domain (σ × List D.Call) where
  World := D.World
  Backend := D.Backend
  Solver := D.Solver
  Problem := D.Problem
  Artifact := D.Artifact
  Session := D.Session
  copy world := fun (shared, journal) =>
    let (made, shared) := D.copy world shared
    (made, shared, journal ++ [.copies world])
  install := D.install
  bindSolver template world seed := fun (shared, journal) =>
    let (solver, shared) := D.bindSolver template world seed shared
    (solver, shared, journal ++ [.binds template world seed])
  asks solver problem := fun (shared, journal) =>
    let (eligibility, shared) := D.asks solver problem shared
    (eligibility, shared, journal ++ [.asks solver problem])
  start solver problem world backend := fun (shared, journal) =>
    let (session, shared) := D.start solver problem world backend shared
    (session, shared, journal ++ [.starts solver problem world backend])
  advance session stopped := fun (shared, journal) =>
    let (move, shared) := D.advance session stopped shared
    (move, shared, journal)

/-- The worker in the domain with the journal. -/
def Worker.journaled (w : Worker D) : Worker D.journaled where
  id := w.id
  solver := w.solver
  world := w.world
  backend := w.backend
  seed := w.seed

/-! ## Building a pool -/

/-- The call that binds the solver of a worker. -/
def Worker.binding (template : D.Solver) (w : Worker D) : D.Call :=
  .binds template w.world w.seed

/-- What is shared after so many copies of a world. -/
def Domain.afterCopies (D : Domain σ) (world : D.World) : Nat → σ → σ
  | 0, shared => shared
  | count + 1, shared => D.afterCopies world count (D.copy world shared).2

/-- The copy of a world that is taken after so many others. -/
def Domain.copyAt (D : Domain σ) (world : D.World) (number : Nat) (shared : σ) :
    Except Panic (Except CloneError D.World) :=
  (D.copy world (D.afterCopies world number shared)).1

theorem Domain.copyAt_succ {world : D.World} {shared next : σ}
    {made : Except Panic (Except CloneError D.World)} (copied : D.copy world shared = (made, next))
    (number : Nat) : D.copyAt world (number + 1) shared = D.copyAt world number next := by
  rw [copyAt, afterCopies, copied]
  rfl

/-- Where all copies come back, each is the one of its number. -/
theorem copyAt_of_copies {world : D.World} {count : Nat} {shared after : σ}
    {made : List (Except CloneError D.World)}
    (taken : copies world count shared = (.ok made, after)) (i : Nat)
    (copy : Except CloneError D.World) (there : made[i]? = some copy) :
    D.copyAt world i shared = .ok copy := by
  induction count generalizing shared made i with
  | zero =>
    cases taken
    cases there
  | succ count ih =>
    unfold copies at taken
    split at taken
    · cases taken
    next first next copied =>
      split at taken
      · cases taken
      next rest _ others =>
        cases taken
        cases i with
        | zero =>
          cases there
          exact congrArg Prod.fst copied
        | succ i =>
          exact (Domain.copyAt_succ copied i).trans (ih others i there)

theorem copies_journaled {world : D.World} {count : Nat} {shared after : σ}
    {made : List (Except CloneError D.World)} (journal : List D.Call)
    (taken : copies world count shared = (.ok made, after)) :
    copies (D := D.journaled) world count (shared, journal) =
      (.ok made, after, journal ++ List.replicate count (.copies world)) := by
  induction count generalizing shared made journal with
  | zero =>
    cases taken
    rw [List.replicate_zero, List.append_nil]
    rfl
  | succ count ih =>
    unfold copies at taken
    split at taken
    · cases taken
    next first next copied =>
      split at taken
      · cases taken
      next rest _ others =>
        cases taken
        simp only [copies, copied, ih _ others, List.replicate_succ, List.append_assoc,
          List.singleton_append]

/-- A copy that panics is the last one taken. -/
theorem copies_journaled_of_panic {world : D.World} {count : Nat} {shared after : σ} {panic : Panic}
    (taken : copies world count shared = (.error panic, after)) :
    ∃ i < count, D.copyAt world i shared = .error panic ∧
      (∀ j < i, ∃ copy, D.copyAt world j shared = .ok copy) ∧
      ∀ journal, copies (D := D.journaled) world count (shared, journal) =
        (.error panic, after, journal ++ List.replicate (i + 1) (.copies world)) := by
  induction count generalizing shared with
  | zero => cases taken
  | succ count ih =>
    unfold copies at taken
    split at taken
    next copied =>
      cases taken
      refine ⟨0, Nat.succ_pos count, congrArg Prod.fst copied, nofun, fun journal => ?_⟩
      simp only [copies, copied, Nat.zero_add, List.replicate_one]
    next first next copied =>
      split at taken
      next others =>
        cases taken
        obtain ⟨i, inside, panics, back, same⟩ := ih others
        refine ⟨i + 1, Nat.succ_lt_succ inside, (Domain.copyAt_succ copied i).trans panics, ?_, ?_⟩
        · rintro (_ | j) below
          · exact ⟨first, congrArg Prod.fst copied⟩
          · rw [Domain.copyAt_succ copied]
            exact back j (Nat.lt_of_succ_lt_succ below)
        · intro journal
          simp only [copies, copied, same, List.replicate_succ, List.append_assoc,
            List.singleton_append]
      · cases taken

theorem buildWorkers_journaled (template : D.Solver) (seeds : List UInt64) (id : Nat)
    (positions : List (D.Backend × Except CloneError D.World)) (last : Option CloneError)
    (shared : σ) (journal : List D.Call) :
    buildWorkers (D := D.journaled) template seeds id positions last (shared, journal) =
      let built := buildWorkers template seeds id positions last shared
      ((built.1.1.map Worker.journaled, built.1.2), built.2,
        journal ++ built.1.1.map (Worker.binding template)) := by
  induction positions generalizing id last shared journal with
  | nil => simp only [buildWorkers, List.map_nil, List.append_nil]
  | cons position rest ih =>
    rcases position with ⟨backend, failure | world⟩
    · simp only [buildWorkers, ih]
    · cases installed : D.install backend world with
      | error failure => simp only [buildWorkers, Worker.build, installed, ih]
      | ok installed' =>
        simp only [buildWorkers, Worker.build, installed, ih, List.map_cons, List.append_assoc,
          List.singleton_append]
        rfl

/-- What a domain is asked to do when a pool is built. -/
def provisionCalls (template : D.Solver) (world : D.World) (backends : List D.Backend)
    (seeds : List UInt64) (shared : σ) : List D.Call :=
  (provision (D := D.journaled) template world backends seeds (shared, [])).2.2

/-- What comes of the workers that were built: the pool, if there is any. -/
def poolOf (attempted : Nat) (built : List (Worker D) × Option CloneError) :
    Except ConfigurationError (List (Worker D)) :=
  match built with
  | ([], some last) => .error (.noWorkers attempted last)
  | (workers, _) => .ok workers

section Attempt

variable {template : D.Solver} {world : D.World} {backends : List D.Backend} {seeds : List UInt64}
  {shared after : σ}

theorem provision_nil :
    provision template world [] seeds shared = (.ok (.error .noBackends), shared) :=
  rfl

theorem provision_of_unpaired (any : backends ≠ []) (seeded : seeds ≠ [])
    (unpaired : seeds.length ≠ backends.length) :
    provision template world backends seeds shared =
      (.ok (.error (.seedCountMismatch backends.length seeds.length)), shared) := by
  simp only [provision, List.isEmpty_eq_false_iff.mpr any, List.isEmpty_eq_false_iff.mpr seeded,
    bne_iff_ne.mpr unpaired, Bool.not_false, Bool.and_true, Bool.false_eq_true, if_false, if_true]

/-- A pool is attempted when there are checkers, and seeds for all of them or none. -/
theorem provision_of_paired (any : backends ≠ [])
    (paired : seeds = [] ∨ seeds.length = backends.length) :
    provision template world backends seeds shared =
      match copies world backends.length shared with
      | (.error panic, shared) => (.error panic, shared)
      | (.ok copies, shared) =>
        match buildWorkers template seeds 0 (backends.zip copies) none shared with
        | (built, shared) => (.ok (poolOf backends.length built), shared) := by
  have pairs : (!seeds.isEmpty && seeds.length != backends.length) = false := by
    rcases paired with rfl | same
    · rfl
    · rw [same, bne_self_eq_false, Bool.and_false]
  simp only [provision, List.isEmpty_eq_false_iff.mpr any, pairs, Bool.false_eq_true, if_false]
  rcases copies world backends.length shared with ⟨panic | made, after⟩
  · rfl
  · dsimp only
    rcases buildWorkers template seeds 0 (backends.zip made) none after with
      ⟨⟨_ | ⟨worker, workers⟩, _ | last⟩, later⟩ <;> rfl

theorem provision_of_panic {panic : Panic} (any : backends ≠ [])
    (paired : seeds = [] ∨ seeds.length = backends.length)
    (taken : copies world backends.length shared = (.error panic, after)) :
    provision template world backends seeds shared = (.error panic, after) := by
  rw [provision_of_paired any paired, taken]

theorem provision_of_copies {made : List (Except CloneError D.World)} (any : backends ≠ [])
    (paired : seeds = [] ∨ seeds.length = backends.length)
    (taken : copies world backends.length shared = (.ok made, after)) :
    provision template world backends seeds shared =
      let built := buildWorkers template seeds 0 (backends.zip made) none after
      (.ok (poolOf backends.length built.1), built.2) := by
  rw [provision_of_paired any paired, taken]

/-- With a journal the same pool is built. -/
theorem provision_journaled :
    provision (D := D.journaled) template world backends seeds (shared, []) =
      let made := provision template world backends seeds shared
      (made.1.map (·.map (·.map Worker.journaled)), made.2,
        provisionCalls template world backends seeds shared) := by
  by_cases any : backends = []
  · subst any
    rfl
  by_cases paired : seeds = [] ∨ seeds.length = backends.length
  · rcases taken : copies world backends.length shared with ⟨panic | made, after⟩
    · obtain ⟨i, -, -, -, journaled⟩ := copies_journaled_of_panic taken
      rw [provisionCalls, provision_of_panic any paired taken,
        provision_of_panic (D := D.journaled) any paired (journaled [])]
      rfl
    · rw [provisionCalls, provision_of_copies any paired taken,
        provision_of_copies (D := D.journaled) any paired (copies_journaled [] taken),
        buildWorkers_journaled]
      rcases buildWorkers template seeds 0 (backends.zip made) none after with
        ⟨⟨_ | ⟨worker, workers⟩, _ | last⟩, later⟩ <;> rfl
  · obtain ⟨seeded, unpaired⟩ := not_or.mp paired
    rw [provisionCalls, provision_of_unpaired any seeded unpaired,
      provision_of_unpaired (D := D.journaled) any seeded unpaired]
    rfl

end Attempt

/-! ## Running a worker -/

namespace Worker

variable {stops : Nat → Bool} {problem : D.Problem}

/-- What a run asks for: a scratch copy, and a solve on the copy if there is one. -/
def runCalls (w : Worker D) (problem : D.Problem) (stopped : Bool) (shared : σ) : List D.Call :=
  if stopped then []
  else
    match D.copy w.world shared with
    | (.ok (.ok scratch), _) => [.copies w.world, .starts w.solver problem scratch w.backend]
    | _ => [.copies w.world]

/-- What a run came to, with the journal as it is then. -/
def recorded (journal : List D.Call) :
    Except Panic (Verdict D.Artifact) × Worker D × σ →
      Except Panic (Verdict D.Artifact) × Worker D.journaled × σ × List D.Call
  | (ending, w, shared) => (ending, w.journaled, shared, journal)

theorem run_of_stopped (stopped : stops 0 = true) (fuel : Nat) (w : Worker D) (shared : σ) :
    w.run stops problem (fuel + 1) shared =
      runFrom stops problem fuel 1 w (.finished (.failure .cancelled)) shared := by
  simp only [run, runFrom, RunPhase.ending?, step, stopped, if_true]

/-- A run that is not stopped at its beginning goes on with what becomes of the scratch copy. -/
theorem run_of_unstopped (unstopped : stops 0 = false) (fuel : Nat) (w : Worker D) (shared : σ) :
    w.run stops problem (fuel + 2) shared =
      match D.copy w.world shared with
      | (.error panic, shared) => runFrom stops problem fuel 2 w (.died panic) shared
      | (.ok (.error e), shared) =>
        runFrom stops problem fuel 2 w (.finished (.failure (.other e.message))) shared
      | (.ok (.ok scratch), shared) =>
        runFrom stops problem fuel 2 w
          (.solving (D.start w.solver problem scratch w.backend shared).1 .ready)
          (D.start w.solver problem scratch w.backend shared).2 := by
  simp only [run, runFrom, RunPhase.ending?, step, unstopped, Bool.false_eq_true, if_false]
  rcases D.copy w.world shared with ⟨_ | _ | _, _⟩ <;> rfl

theorem runFrom_finished_journaled (fuel n : Nat) (w : Worker D) (verdict : Verdict D.Artifact)
    (shared : σ) (journal : List D.Call) :
    runFrom (D := D.journaled) stops problem fuel n w.journaled (.finished verdict)
        (shared, journal) =
      (runFrom stops problem fuel n w (.finished verdict) shared).map (recorded journal) := by
  cases fuel with
  | zero => rfl
  | succ fuel => rfl

theorem runFrom_died_journaled (fuel n : Nat) (w : Worker D) (panic : Panic) (shared : σ)
    (journal : List D.Call) :
    runFrom (D := D.journaled) stops problem fuel n w.journaled (.died panic) (shared, journal) =
      (runFrom stops problem fuel n w (.died panic) shared).map (recorded journal) := by
  cases fuel with
  | zero => rfl
  | succ fuel => rfl

/-- A solve asks for nothing that is written down. -/
theorem runFrom_solving_journaled (fuel n : Nat) (w : Worker D) (session : D.Session) (rest : Rest)
    (shared : σ) (journal : List D.Call) :
    runFrom (D := D.journaled) stops problem fuel n w.journaled (.solving session rest)
        (shared, journal) =
      (runFrom stops problem fuel n w (.solving session rest) shared).map (recorded journal) := by
  induction fuel generalizing n session rest shared with
  | zero => rfl
  | succ fuel ih =>
    rcases moved : D.advance session (stops n) shared with ⟨next | ⟨result, solver, backend⟩, after⟩
    · simp only [runFrom, RunPhase.ending?, step, moved]
      exact ih _ _ _ _
    · simp only [runFrom, RunPhase.ending?, step, moved]
      exact runFrom_finished_journaled fuel (n + 1) { w with solver, backend } _ after journal

/-- With a journal a run comes to the same. -/
theorem run_journaled (fuel : Nat) (w : Worker D) (shared : σ) (journal : List D.Call) :
    run (D := D.journaled) stops problem fuel w.journaled (shared, journal) =
      (run stops problem fuel w shared).map
        (recorded (journal ++ w.runCalls problem (stops 0) shared)) := by
  cases first : stops 0 with
  | true =>
    rcases fuel with _ | fuel
    · rfl
    · rw [run_of_stopped (D := D) first, run_of_stopped (D := D.journaled) first,
        runFrom_finished_journaled, runCalls, if_pos rfl, List.append_nil]
  | false =>
    rcases fuel with _ | _ | fuel
    · rfl
    · rw [run, run, runFrom, runFrom]
      rfl
    · rw [run_of_unstopped (D := D) first, run_of_unstopped (D := D.journaled) first, runCalls,
        if_neg Bool.false_ne_true]
      rcases copied : D.copy w.world shared with ⟨panic | failure | scratch, between⟩
      · simp only [journaled, copied]
        exact runFrom_died_journaled fuel 2 w panic between _
      · simp only [journaled, copied]
        exact runFrom_finished_journaled fuel 2 w _ between _
      · simp only [journaled, copied, List.append_assoc, List.singleton_append]
        exact runFrom_solving_journaled fuel 2 w _ .ready _ _

end Worker

end MotionRace
