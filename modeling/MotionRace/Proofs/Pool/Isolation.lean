import MotionRace.Proofs.Pool.Alone
import MotionRace.Proofs.Pool.Positions

/-!
# Runs leave nothing behind

A worker is run again and again, on any problems, with any answers to the looks at the stop flag and
with any conduct of its solver. Each run ends in one of four ways, each with a verdict, and no way
but the solve itself touches the worker: the world that was captured when the pool was built is the
one that every scratch copy is taken from, and the id and the seed stay too. The solver and the
checker are what the last solve gave back, also after a solve that panicked.

This is for worlds whose copies return, with a copy or with an error, as those of arms do
(`planning_copiesReturn`). A panic of a copy is caught by nobody: it takes the run down before a
solve, and leaves the worker as it was (`ran_iff`). It is the only way for a run to end without a
verdict (`Ran.verdict_iff`).

Main statement: `runs_are_isolated`.
-/

namespace MotionRace

variable {σ : Type} {D : Domain σ}

/-- No copy panics: each returns a copy or an error. -/
def Domain.CopiesReturn (D : Domain σ) : Prop :=
  ∀ world shared panic, (D.copy world shared).1 ≠ .error panic

theorem planning_copiesReturn : planning.CopiesReturn := by
  intro arm shared panic panics
  cases panics

theorem Scripted.Script.copiesReturn {α β : Type} {s : Scripted.Script α β}
    (calm : s.panicking = []) : s.domain.CopiesReturn := by
  intro world tally panic panics
  simp only [Script.domain, Script.copy, calm] at panics
  split at panics
  · cases panics
  · split at panics
    · cases panics
    · cases panics

/-- A solve that is moved on to its end; the looks at the stop flag are counted. -/
inductive Domain.Solves (D : Domain σ) (stops : Nat → Bool) : Nat → D.Session → σ →
    Except Panic (Except SolveFailure D.Artifact) → D.Solver → D.Backend → σ → Prop where
  | ends {n session shared result solver backend after}
      (moved : D.advance session (stops n) shared = (.ends result solver backend, after)) :
    Solves D stops n session shared result solver backend after
  | goesOn {n session shared next rest between result solver backend after}
      (moved : D.advance session (stops n) shared = (.goesOn next rest, between))
      (later : Solves D stops (n + 1) next between result solver backend after) :
    Solves D stops n session shared result solver backend after

/-- A run that is over. -/
structure Run (D : Domain σ) where
  /-- A verdict, or the panic that took the run down. -/
  ending : Except Panic (Verdict D.Artifact)
  /-- The worker as the run leaves it. -/
  worker : Worker D
  /-- What is shared when the run is over. -/
  shared : σ
  /-- What the run asked for. -/
  calls : List D.Call

namespace Worker

/-- A run of a worker is over, in the domain and in the one with the journal. -/
def Ran (w : Worker D) (stops : Nat → Bool) (problem : D.Problem) (shared : σ) (r : Run D) : Prop :=
  ∃ fuel, w.run stops problem fuel shared = some (r.ending, r.worker, r.shared) ∧
    run (D := D.journaled) stops problem fuel w.journaled (shared, []) =
      some (r.ending, r.worker.journaled, r.shared, r.calls)

/-- The ways in which a run ends with a verdict. -/
inductive Exit (w : Worker D) (stops : Nat → Bool) (problem : D.Problem) (shared : σ) :
    Run D → Prop where
  /-- A stop was requested before the run began. -/
  | cancelled (stopped : stops 0 = true) :
    Exit w stops problem shared ⟨.ok (.failure .cancelled), w, shared, []⟩
  /-- There is no scratch copy. -/
  | refused {e after} (unstopped : stops 0 = false)
      (copied : D.copy w.world shared = (.ok (.error e), after)) :
    Exit w stops problem shared ⟨.ok (.failure (.other e.message)), w, after, [.copies w.world]⟩
  /-- One solve, on a scratch world like the captured one, with a result. -/
  | solved {between result solver backend after} (unstopped : stops 0 = false)
      (copied : D.copy w.world shared = (.ok (.ok w.world), between))
      (solve : D.Solves stops 2 (D.start w.solver problem w.world w.backend between).1
        (D.start w.solver problem w.world w.backend between).2 (.ok result) solver backend after) :
    Exit w stops problem shared ⟨.ok (.ofSolve (.ok result)), { w with solver, backend }, after,
      [.copies w.world, .starts w.solver problem w.world w.backend]⟩
  /-- One solve, on a scratch world like the captured one, that panics. -/
  | crashed {between panic solver backend after} (unstopped : stops 0 = false)
      (copied : D.copy w.world shared = (.ok (.ok w.world), between))
      (solve : D.Solves stops 2 (D.start w.solver problem w.world w.backend between).1
        (D.start w.solver problem w.world w.backend between).2 (.error panic) solver backend
        after) :
    Exit w stops problem shared ⟨.ok (.failure (.crashed panic.message)),
      { w with solver, backend }, after,
      [.copies w.world, .starts w.solver problem w.world w.backend]⟩

/-- The way in which a run ends without a verdict: its copy panics. -/
inductive Down (w : Worker D) (stops : Nat → Bool) (shared : σ) : Run D → Prop where
  | copy {panic after} (unstopped : stops 0 = false)
      (copied : D.copy w.world shared = (.error panic, after)) :
    Down w stops shared ⟨.error panic, w, after, [.copies w.world]⟩

/-- A worker that is run again and again: the runs in order, and the worker after the last. -/
inductive Serves : Worker D → List (Run D) → Worker D → Prop where
  | idle (w : Worker D) : Serves w [] w
  | run {w last : Worker D} {runs : List (Run D)} {stops problem shared r}
      (first : w.Ran stops problem shared r) (later : Serves r.worker runs last) :
    Serves w (r :: runs) last

variable {w : Worker D} {stops : Nat → Bool} {problem : D.Problem} {shared : σ} {r : Run D}

/-! ## One run -/

theorem ran_iff_run : w.Ran stops problem shared r ↔
    (∃ fuel, w.run stops problem fuel shared = some (r.ending, r.worker, r.shared)) ∧
      r.calls = w.runCalls problem (stops 0) shared := by
  constructor
  · rintro ⟨fuel, plain, noted⟩
    rw [run_journaled, plain] at noted
    exact ⟨⟨fuel, plain⟩, (congrArg (·.2.2.2) (Option.some.inj noted)).symm⟩
  · rintro ⟨⟨fuel, plain⟩, calls⟩
    refine ⟨fuel, plain, ?_⟩
    rw [run_journaled, plain, calls]
    rfl

/-- A run comes to one end. -/
theorem Ran.unique {other : Run D} (one : w.Ran stops problem shared r)
    (another : w.Ran stops problem shared other) : r = other := by
  obtain ⟨⟨fuel, ends⟩, calls⟩ := ran_iff_run.mp one
  obtain ⟨⟨fuel', ends'⟩, calls'⟩ := ran_iff_run.mp another
  have same := runFrom_mono ends fuel'
  rw [Nat.add_comm] at same
  rcases r with ⟨ending, worker, after, asked⟩
  rcases other with ⟨ending', worker', after', asked'⟩
  cases same.symm.trans (runFrom_mono ends' fuel)
  cases calls.trans calls'.symm
  rfl

/-- What a run comes to from a phase on. -/
def ComesTo (stops : Nat → Bool) (problem : D.Problem) (n : Nat) (w : Worker D) (phase : RunPhase D)
    (shared : σ) (answer : Except Panic (Verdict D.Artifact) × Worker D × σ) : Prop :=
  ∃ fuel, runFrom stops problem fuel n w phase shared = some answer

section ComesTo

variable {n : Nat} {phase : RunPhase D} {ending : Except Panic (Verdict D.Artifact)} {after : σ}
  {worker : Worker D} {answer : Except Panic (Verdict D.Artifact) × Worker D × σ}

theorem comesTo_of_ended (ended : RunPhase.ending? phase = some ending) :
    ComesTo stops problem n w phase shared answer ↔ answer = (ending, w, shared) := by
  constructor
  · rintro ⟨_ | fuel, ends⟩
    · cases ends
    · simp only [runFrom, ended] at ends
      exact (Option.some.inj ends).symm
  · rintro rfl
    refine ⟨1, ?_⟩
    simp only [runFrom, ended]

theorem comesTo_step (next : RunPhase D) (goesOn : RunPhase.ending? phase = none)
    (stepped : w.step problem (stops n) phase shared = ((next, worker), after)) :
    ComesTo stops problem n w phase shared answer ↔
      ComesTo stops problem (n + 1) worker next after answer := by
  constructor
  · rintro ⟨_ | fuel, ends⟩
    · cases ends
    · simp only [runFrom, goesOn, stepped] at ends
      exact ⟨fuel, ends⟩
  · rintro ⟨fuel, ends⟩
    refine ⟨fuel + 1, ?_⟩
    simp only [runFrom, goesOn, stepped]
    exact ends

/-- A run in the middle of a solve ends when the solve does. -/
theorem comesTo_of_solving {session : D.Session} {rest : Rest} :
    ComesTo stops problem n w (.solving session rest) shared answer ↔
      ∃ result solver backend after, D.Solves stops n session shared result solver backend after ∧
        answer = (.ok (.ofSolve result), { w with solver, backend }, after) := by
  constructor
  · rintro ⟨fuel, ends⟩
    induction fuel generalizing n session rest shared with
    | zero => cases ends
    | succ fuel ih =>
      rcases moved : D.advance session (stops n) shared with
        ⟨next | ⟨result, solver, backend⟩, after⟩
      · simp only [runFrom, RunPhase.ending?, step, moved] at ends
        obtain ⟨result, solver, backend, last, later, same⟩ := ih ends
        exact ⟨result, solver, backend, last, .goesOn moved later, same⟩
      · simp only [runFrom, RunPhase.ending?, step, moved] at ends
        exact ⟨result, solver, backend, after, .ends moved,
          (comesTo_of_ended rfl).mp ⟨fuel, ends⟩⟩
  · rintro ⟨result, solver, backend, after, solves, rfl⟩
    induction solves generalizing rest with
    | @ends n session shared result solver backend after moved =>
      refine (comesTo_step (.finished (.ofSolve result)) rfl ?_).mpr
        ((comesTo_of_ended rfl).mpr rfl)
      simp only [step, moved]
    | @goesOn n session shared next pause between result solver backend after moved _ ih =>
      refine (comesTo_step (.solving next pause) rfl ?_).mpr ih
      simp only [step, moved]

/-- A run looks at the stop flag, takes its copy and solves. -/
theorem run_comesTo_iff : (∃ fuel, w.run stops problem fuel shared = some answer) ↔
    if stops 0 then answer = (.ok (.failure .cancelled), w, shared)
    else
      match D.copy w.world shared with
      | (.error panic, after) => answer = (.error panic, w, after)
      | (.ok (.error e), after) => answer = (.ok (.failure (.other e.message)), w, after)
      | (.ok (.ok scratch), between) =>
        ∃ result solver backend after,
          D.Solves stops 2 (D.start w.solver problem scratch w.backend between).1
            (D.start w.solver problem scratch w.backend between).2 result solver backend after ∧
          answer = (.ok (.ofSolve result), { w with solver, backend }, after) := by
  show ComesTo stops problem 0 w .entered shared answer ↔ _
  cases first : stops 0 with
  | true =>
    refine (comesTo_step (.finished (.failure .cancelled)) rfl ?_).trans
      (comesTo_of_ended rfl)
    simp only [step, first, if_true]
  | false =>
    have entered : w.step problem (stops 0) .entered shared = ((.copying, w), shared) := by
      simp only [step, first, Bool.false_eq_true, if_false]
    refine (comesTo_step .copying rfl entered).trans ?_
    rw [if_neg Bool.false_ne_true]
    rcases copied : D.copy w.world shared with ⟨panic | e | scratch, between⟩
    · refine (comesTo_step (.died panic) rfl ?_).trans (comesTo_of_ended rfl)
      simp only [step, copied]
    · refine (comesTo_step (.finished (.failure (.other e.message))) rfl ?_).trans
        (comesTo_of_ended rfl)
      simp only [step, copied]
    · refine (comesTo_step (.solving _ .ready) rfl ?_).trans comesTo_of_solving
      simp only [step, copied]

end ComesTo

/-- A run that is over has ended in one of the ways, and in each of the ways a run does end. -/
theorem ran_iff (faithful : D.Faithful) : w.Ran stops problem shared r ↔
    w.Exit stops problem shared r ∨ w.Down stops shared r := by
  rcases r with ⟨ending, worker, after, asked⟩
  rw [ran_iff_run, run_comesTo_iff]
  constructor
  · rintro ⟨comes, calls⟩
    cases first : stops 0 with
    | true =>
      rw [first] at comes calls
      cases comes
      cases calls
      exact .inl (.cancelled first)
    | false =>
      rcases copied : D.copy w.world shared with ⟨panic | e | scratch, between⟩
      · simp only [first, copied, Bool.false_eq_true, if_false, runCalls] at comes calls
        cases comes
        cases calls
        exact .inr (.copy first copied)
      · simp only [first, copied, Bool.false_eq_true, if_false, runCalls] at comes calls
        cases comes
        cases calls
        exact .inl (.refused first copied)
      · have same := faithful.copy _ _ _ _ copied
        subst same
        simp only [first, copied, Bool.false_eq_true, if_false, runCalls] at comes calls
        obtain ⟨panic | result, solver, backend, last, solves, same⟩ := comes
        · cases same
          cases calls
          exact .inl (.crashed first copied solves)
        · cases same
          cases calls
          exact .inl (.solved first copied solves)
  · rintro (exit | down)
    · cases exit with
      | cancelled stopped => simp [stopped, runCalls]
      | refused unstopped copied => simp [unstopped, copied, runCalls]
      | solved unstopped copied solve =>
        simp only [unstopped, copied, runCalls, Bool.false_eq_true, if_false, and_true]
        exact ⟨_, _, _, _, solve, rfl⟩
      | crashed unstopped copied solve =>
        simp only [unstopped, copied, runCalls, Bool.false_eq_true, if_false, and_true]
        exact ⟨_, _, _, _, solve, rfl⟩
    · cases down with
      | copy unstopped copied => simp [unstopped, copied, runCalls]

theorem Exit.verdict (exit : w.Exit stops problem shared r) :
    ∃ verdict, r.ending = .ok verdict := by
  cases exit <;> exact ⟨_, rfl⟩

/-- A run ends without a verdict only by a copy that panics. -/
theorem Ran.verdict_iff (faithful : D.Faithful) (ran : w.Ran stops problem shared r) :
    (∃ verdict, r.ending = .ok verdict) ↔
      stops 0 = true ∨ ∀ panic, (D.copy w.world shared).1 ≠ .error panic := by
  rcases (ran_iff faithful).mp ran with exit | ⟨unstopped, copied⟩
  · refine iff_of_true exit.verdict ?_
    cases exit with
    | cancelled stopped => exact .inl stopped
    | refused _ copied | solved _ copied | crashed _ copied =>
      refine .inr fun panic panics => ?_
      rw [copied] at panics
      cases panics
  · refine iff_of_false nofun ?_
    rintro (stopped | comes)
    · cases unstopped.symm.trans stopped
    · exact comes _ (congrArg Prod.fst copied)

/-- Where copies return, every run ends with a verdict. -/
theorem ran_iff_exit (faithful : D.Faithful) (returns : D.CopiesReturn) :
    w.Ran stops problem shared r ↔ w.Exit stops problem shared r := by
  refine (ran_iff faithful).trans (or_iff_left ?_)
  rintro ⟨-, copied⟩
  exact returns _ _ _ (congrArg Prod.fst copied)

/-! ## Runs in a row -/

/-- A worker that differs from another in its solver and its checker at most. -/
structure Keeps (w later : Worker D) : Prop where
  world : later.world = w.world
  id : later.id = w.id
  seed : later.seed = w.seed

theorem Keeps.refl (w : Worker D) : w.Keeps w := ⟨rfl, rfl, rfl⟩

theorem Keeps.trans {first second third : Worker D} (one : first.Keeps second)
    (other : second.Keeps third) : first.Keeps third :=
  ⟨other.world.trans one.world, other.id.trans one.id, other.seed.trans one.seed⟩

theorem Ran.keeps (faithful : D.Faithful) (ran : w.Ran stops problem shared r) :
    w.Keeps r.worker := by
  rcases (ran_iff faithful).mp ran with exit | down
  · cases exit with
    | cancelled | refused => exact .refl w
    | solved | crashed => exact ⟨rfl, rfl, rfl⟩
  · cases down with
    | copy => exact .refl w

/-- Every run in a row begins with a worker that has kept its world, its id and its seed. -/
theorem Serves.keeps (faithful : D.Faithful) {last : Worker D} {runs : List (Run D)}
    (serves : w.Serves runs last) :
    w.Keeps last ∧ ∀ r ∈ runs, ∃ before : Worker D, w.Keeps before ∧
      ∃ stops problem shared, before.Ran stops problem shared r := by
  induction serves with
  | idle w => exact ⟨.refl w, nofun⟩
  | @run w last runs stops problem shared first ran later ih =>
    have keeps := ran.keeps faithful
    obtain ⟨kept, others⟩ := ih
    refine ⟨keeps.trans kept, ?_⟩
    intro r listed
    rcases List.mem_cons.mp listed with rfl | listed
    · exact ⟨w, .refl w, stops, problem, shared, ran⟩
    · obtain ⟨before, also, ends⟩ := others r listed
      exact ⟨before, keeps.trans also, ends⟩

/-- Where copies return, a run ends in one of the four ways of `Exit` and in no other, once and with
a verdict, whatever its solver does. However often a worker is run, its world, its id and its seed
stay, and every run takes its scratch world from the world that was captured at first. -/
theorem runs_are_isolated (faithful : D.Faithful) (returns : D.CopiesReturn) (w : Worker D) :
    (∀ stops problem shared r,
      (w.Ran stops problem shared r ↔ w.Exit stops problem shared r) ∧
      (w.Ran stops problem shared r →
        (∃ verdict, r.ending = .ok verdict) ∧
        ∀ other, w.Ran stops problem shared other → other = r)) ∧
    ∀ runs last, w.Serves runs last →
      (last.world = w.world ∧ last.id = w.id ∧ last.seed = w.seed) ∧
      ∀ r ∈ runs, ∃ before : Worker D,
        (before.world = w.world ∧ before.id = w.id ∧ before.seed = w.seed) ∧
        ∃ stops problem shared, before.Exit stops problem shared r := by
  refine ⟨?_, ?_⟩
  · intro stops problem shared r
    have exits : w.Ran stops problem shared r ↔ w.Exit stops problem shared r :=
      ran_iff_exit faithful returns
    exact ⟨exits, fun ran => ⟨(exits.mp ran).verdict, fun _ other => other.unique ran⟩⟩
  · intro runs last serves
    obtain ⟨⟨world, id, seed⟩, each⟩ := serves.keeps faithful
    refine ⟨⟨world, id, seed⟩, ?_⟩
    intro r listed
    obtain ⟨before, ⟨world, id, seed⟩, stops, problem, shared, ran⟩ := each r listed
    exact ⟨before, ⟨world, id, seed⟩, stops, problem, shared,
      (ran_iff_exit faithful returns).mp ran⟩

end Worker

/-- A solver that panics at the first problem and succeeds at the others. -/
def Scripted.Script.moody : Scripted.Script Nat Nat where
  acts := [[.panic "boom", .succeed 5 0]]

/-- The worker of that solver. -/
def Scripted.Script.moodyWorker : Worker Scripted.Script.moody.domain where
  id := 3
  solver := ({} : Scripted.Solver)
  world := (⟨[1, 2], false⟩ : Scripted.World Nat)
  backend := ({ name := "limit", limit := 9 } : Scripted.Checker Nat)
  seed := some 7

namespace Worker

open Scripted (Tally)
open Scripted.Script (moody moodyWorker)

/-- The worker crashes, succeeds, and is cancelled; its world, its id and its seed are the same. -/
theorem a_crash_and_two_more_runs :
    ∃ runs last, moodyWorker.Serves runs last ∧
      runs.map Run.ending = [.ok (.failure (.crashed "boom")),
        .ok (.success ⟨0, 5, ⟨[1, 2], false⟩, { name := "limit", limit := 9 }⟩),
        .ok (.failure .cancelled)] ∧
      last.world = moodyWorker.world ∧ last.id = 3 ∧ last.seed = some 7 := by
  have returns : moody.domain.CopiesReturn := Scripted.Script.copiesReturn rfl
  have exits (w : Worker moody.domain) := (runs_are_isolated moody.faithful returns w).1
  have crash := (exits moodyWorker (fun _ => false) (0 : Nat) (Tally.ofLength 1) _).1.mpr
    (.crashed rfl rfl (.ends rfl))
  have success := (exits moodyWorker (fun _ => false) (1 : Nat) (Tally.ofLength 1) _).1.mpr
    (.solved rfl rfl (.ends rfl))
  have stop := (exits moodyWorker (fun _ => true) (1 : Nat) (Tally.ofLength 1) _).1.mpr
    (.cancelled rfl)
  have serves := Serves.run crash (.run success (.run stop (.idle _)))
  obtain ⟨world, id, seed⟩ :=
    ((runs_are_isolated moody.faithful returns moodyWorker).2 _ _ serves).1
  exact ⟨_, _, serves, rfl, world, id, seed⟩

end Worker

end MotionRace
