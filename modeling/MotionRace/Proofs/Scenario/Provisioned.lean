import MotionRace.Proofs.Arm.Copies
import MotionRace.Proofs.Race.Answers
import MotionRace.Proofs.Scenario.Accepted

/-!
# An accepted scenario gets its pool

The workers of a scenario are all built from one arm, one checker and one planner. Where these are
as the check of a scenario leaves them, every copy is taken and every checker installed, so there is
a worker for each position. What such a worker answers when it is asked about the problem of its
scenario depends on the kinds that the scenario lists, and on nothing else: neither on its seed nor
on its former runs.

Main statement: `accepted_scenario_is_provisioned`.
-/

namespace MotionRace

open MotionRace.Random (WordStream)

section Building

variable {σ : Type} {D : Domain σ} {template : D.Solver} {world : D.World} {seeds : List UInt64}
  {backend installed : D.Backend}

/-- The worker of a position around a world, with its solver bound while the given state is
shared. -/
def Worker.around (template : D.Solver) (world : D.World) (installed : D.Backend)
    (seeds : List UInt64) (id : Nat) (shared : σ) : Worker D where
  id
  solver := (D.bindSolver template world seeds[id]? shared).1
  world
  backend := installed
  seed := seeds[id]?

/-! ## Pools of equal parts -/

theorem copies_replicate (copied : ∀ shared, D.copy world shared = (.ok (.ok world), shared))
    (count : Nat) (shared : σ) :
    copies world count shared = (.ok (List.replicate count (.ok world)), shared) := by
  induction count with
  | zero => rfl
  | succ count ih =>
    simp only [copies, copied, ih]
    rfl

/-- Workers around one world with one checker are built one for each position. -/
theorem buildWorkers_replicate (template : D.Solver) (seeds : List UInt64)
    (installs : D.install backend world = .ok installed) (count id : Nat)
    (last : Option CloneError) (shared : σ) :
    ∃ workers after, buildWorkers template seeds id (List.replicate count (backend, .ok world))
        last shared = ((workers, last), after) ∧ workers.length = count ∧
      ∀ (i : Nat) (worker : Worker D), workers[i]? = some worker →
        ∃ before, worker = .around template world installed seeds (id + i) before := by
  induction count generalizing id shared with
  | zero => exact ⟨[], shared, rfl, rfl, nofun⟩
  | succ count ih =>
    rcases bound : D.bindSolver template world seeds[id]? shared with ⟨solver, further⟩
    obtain ⟨workers, after, built, length, each⟩ := ih (id + 1) further
    refine ⟨.around template world installed seeds id shared :: workers, after, ?_,
      congrArg Nat.succ length, ?_⟩
    · simp only [List.replicate_succ, buildWorkers, Worker.build, installs, bound, built,
        Worker.around]
    · intro i worker there
      cases i with
      | zero =>
        cases there
        exact ⟨shared, rfl⟩
      | succ i =>
        rw [Nat.add_comm i 1, ← Nat.add_assoc]
        exact each i worker there

/-- A pool of equal parts that can be copied and installed is complete. -/
theorem provision_replicate (template : D.Solver)
    (copied : ∀ shared, D.copy world shared = (.ok (.ok world), shared))
    (installs : D.install backend world = .ok installed) {count : Nat} (any : count ≠ 0)
    (paired : seeds = [] ∨ seeds.length = count) (shared : σ) :
    ∃ workers after, provision template world (List.replicate count backend) seeds shared =
        (.ok (.ok workers), after) ∧ workers.length = count ∧
      ∀ (id : Nat) (worker : Worker D), workers[id]? = some worker →
        ∃ before, worker = .around template world installed seeds id before := by
  obtain ⟨workers, after, built, length, each⟩ :=
    buildWorkers_replicate template seeds installs count 0 none shared
  refine ⟨workers, after, ?_, length, ?_⟩
  · have nonempty : (List.replicate count backend).isEmpty = false := by
      cases count with
      | zero => exact absurd rfl any
      | succ count => rfl
    have pairs : (!seeds.isEmpty && seeds.length != count) = false := by
      rcases paired with rfl | rfl <;> simp
    simp only [provision, nonempty, Bool.false_eq_true, if_false, List.length_replicate, pairs,
      copies_replicate copied, List.zip_replicate', built]
  · simpa only [Nat.zero_add] using each

/-- Workers that have their positions for ids are listed in order. -/
theorem Machine.workerIds_ofWorkers {workers : List (Worker D)} {waits : Waits} {logs : Bool}
    {shared : σ} (placed : ∀ (id : Nat) (w : Worker D), workers[id]? = some w → w.id = id) :
    (ofWorkers workers waits logs shared).workerIds = List.range workers.length := by
  apply List.ext_getElem
  · simp only [workerIds, ofWorkers, List.length_map, List.length_range]
  · intro id inside _
    simp only [workerIds, ofWorkers, List.getElem_map, List.getElem_range]
    exact placed id _ (List.getElem?_eq_getElem _)

end Building

/-! ## The pool of a scenario -/

/-- A solve leaves the settings of its planner and the limits that it was bound to alone. -/
theorem planning_keeps (settings : Settings) (limits : List (Float × Float)) :
    planning.Keeps (fun p : Planner => p.settings = settings ∧ p.limits = limits)
      (fun s : Planner.Session => s.planner.settings = settings ∧ s.planner.limits = limits) where
  start _ _ _ _ _ fits := fits
  goesOn := by
    rintro ⟨planner, rest⟩ stopped shared later pause after sounds moved
    cases rest with
    | done value => cases moved
    | ask next =>
      cases moved
      exact sounds
  ends := by
    rintro ⟨planner, rest⟩ stopped shared result solver backend after sounds moved
    cases rest with
    | done value =>
      cases moved
      exact sounds
    | ask next => cases moved

namespace Scenario

variable {s : Scenario}

/-- The checker of the scenario, installed on its arm. -/
def installed (s : Scenario) : ObstacleChecker where
  obstacles := s.obstacles
  margin := s.world.margin
  installedDof := some s.world.joints.length

/-- The worker of a position, with its planner on a stream. -/
def worker (s : Scenario) (id : Nat) (stream : WordStream) : Worker planning where
  id
  solver := s.template.bindTo s.arm stream
  world := s.arm
  backend := s.installed
  seed := s.race.resolvedSeeds[id]?

/-- A planner of the scenario that is bound to its arm, wherever its stream stands. -/
def IsBound (s : Scenario) (p : Planner) : Prop :=
  p.settings = s.solver ∧ p.limits = s.arm.limits

theorem Accepted.settings (accepted : s.Accepted) : s.template.settings = s.solver :=
  if_pos accepted.resolution

theorem Accepted.installs (accepted : s.Accepted) :
    ObstacleChecker.install { obstacles := s.obstacles, margin := s.world.margin } s.arm =
      .ok s.installed :=
  if_neg fun jointless => accepted.joints (List.length_eq_zero_iff.mp jointless)

/-- A bound planner takes the problem of its scenario on if the problem's kind is supported. -/
theorem Accepted.canSolve_eq (accepted : s.Accepted) {p : Planner} (bound : s.IsBound p) :
    p.canSolve s.problem = s.solver.supports.contains s.problem.kind := by
  have dof : p.limits.length = s.world.joints.length := by
    rw [bound.2, Arm.limits, List.length_map]
    rfl
  have starts : s.problem.dof = p.limits.length := accepted.start.trans dof.symm
  simp only [Planner.canSolve, bound.1, starts, beq_self_eq_true, Bool.and_true]
  cases problem : s.problem with
  | toConfiguration start goal =>
    simp only [accepted.goal start goal problem, dof, beq_self_eq_true, Bool.and_true]
  | toRegion start region => exact Bool.and_true _

/-- The pool of an accepted scenario has a worker for each position. -/
theorem Accepted.pool_eq (accepted : s.Accepted) (source : WordStream) :
    ∃ workers after, s.pool source = (.ok (.ok workers), after) ∧
      workers.length = s.race.workers ∧
      ∀ (id : Nat) (worker : Worker planning), workers[id]? = some worker →
        ∃ stream, worker = s.worker id stream ∧
          ∀ seed, s.race.resolvedSeeds[id]? = some seed → stream = .ofSeed seed := by
  have copied (shared : WordStream) : planning.copy s.arm shared = (.ok (.ok s.arm), shared) := by
    simp only [planning, Arm.copy_of_validate accepted.wellFormed]
  obtain ⟨workers, after, built, length, each⟩ :=
    provision_replicate (D := planning) s.template copied accepted.installs accepted.workers
      accepted.seeds source
  refine ⟨workers, after, built, length, fun id worker there => ?_⟩
  obtain ⟨before, rfl⟩ := each id worker there
  cases seed : s.race.resolvedSeeds[id]? with
  | none =>
    refine ⟨.ofSeed before.next.1, ?_, by rintro _ ⟨⟩⟩
    simp only [Worker.around, worker, seed]
    rfl
  | some word =>
    refine ⟨.ofSeed word, ?_, ?_⟩
    · simp only [Worker.around, worker, seed]
      rfl
    · exact fun other same => congrArg _ (Option.some.inj same)

theorem Accepted.asks_eq (accepted : s.Accepted) (p : Planner) (source : WordStream)
    (bound : s.IsBound p) : (planning.asks p s.problem source).1 =
      if s.solver.supports.contains s.problem.kind then .accepts else .refuses :=
  congrArg (fun takes => if takes then Eligibility.accepts else .refuses)
    (accepted.canSolve_eq bound)

end Scenario

theorem planning_decided (p : Planner) (problem : Problem) (source : WordStream) :
    (planning.asks p problem source).1 ≠ .undecided := by
  cases takes : p.canSolve problem <;> simp [planning, takes]

/-- An accepted scenario gets a worker for each position, and the first race of its pool claims them
all if the kind of its problem is supported, and finds nobody eligible if not. -/
theorem accepted_scenario_is_provisioned {s : Scenario} (checked : s.check = .ok ())
    (source : WordStream) :
    s.arm.validate = .ok () ∧ s.template.settings = s.solver ∧
    (s.race.resolvedSeeds = [] ∨ s.race.resolvedSeeds.length = s.race.workers) ∧
    ∃ workers after, s.pool source = (.ok (.ok workers), after) ∧
    (∀ logs, (Machine.ofWorkers workers s.race.waits logs after).workerIds =
      List.range s.race.workers) ∧
    (∀ (id : Nat) (worker : Worker planning), workers[id]? = some worker →
      worker.id = id ∧ worker.seed = s.race.resolvedSeeds[id]? ∧ worker.world = s.arm ∧
      ObstacleChecker.installedDof worker.backend = some s.world.joints.length ∧
      Planner.canSolve worker.solver s.problem =
        s.solver.supports.contains s.problem.kind) ∧
    -- The first race is the one of the call that makes the first move after the pool is built.
    ∀ logs before m index, (Machine.ofWorkers workers s.race.waits logs after).steps before =
        some m → (∀ event ∈ before, event.party? = none) →
      m.calls[index]? = some ⟨s.problem, .arriving⟩ →
      ∀ during later, m.steps (.call index :: during) = some later →
      if s.solver.supports.contains s.problem.kind then
        ((later.phaseOf index).isPassing = false →
          m.keptBy index (.call index :: during) = List.range s.race.workers) ∧
        later.ending? index ≠ some (.outcome .noneEligible) ∧
        ∃ own last, (∀ event ∈ own, event.party? = some (.call index)) ∧
          later.steps own = some last ∧
          m.keptBy index (.call index :: (during ++ own)) = List.range s.race.workers
      else
        m.keptBy index (.call index :: during) = [] ∧
        (∀ ending, later.ending? index = some ending → ending = .outcome .noneEligible) ∧
        ∃ own last, (∀ event ∈ own, event.party? = some (.call index)) ∧
          later.steps own = some last ∧
          last.ending? index = some (.outcome .noneEligible) := by
  have accepted := accepted_of_check checked
  obtain ⟨workers, after, built, length, each⟩ := accepted.pool_eq source
  have bound (id : Nat) (worker : Worker planning) (there : workers[id]? = some worker) :
      s.IsBound worker.solver := by
    obtain ⟨stream, rfl, -⟩ := each id worker there
    exact ⟨accepted.settings, rfl⟩
  refine ⟨accepted.wellFormed, accepted.settings, accepted.seeds, workers, after, built, ?_, ?_, ?_⟩
  · intro logs
    rw [Machine.workerIds_ofWorkers fun id worker there => ?_, length]
    obtain ⟨stream, rfl, -⟩ := each id worker there
    rfl
  · intro id worker there
    have takes := accepted.canSolve_eq (bound id worker there)
    obtain ⟨stream, rfl, -⟩ := each id worker there
    exact ⟨rfl, rfl, rfl, rfl, takes⟩
  · intro logs before m index run nobody there during later more
    have keeps := planning_keeps s.solver s.arm.limits
    have fits (worker : Worker planning) (listed : worker ∈ workers) : s.IsBound worker.solver := by
      obtain ⟨id, there⟩ := List.getElem?_of_mem listed
      exact bound id worker there
    have asks := accepted.asks_eq
    split
    next takes =>
      obtain ⟨claims, nobodyMarked, comes⟩ :=
        Machine.first_race_of_the_willing keeps planning_contained fits run nobody there
          (fun p source bound => (asks p source bound).trans (if_pos takes)) planning_decided more
      rw [length] at claims comes
      refine ⟨claims, fun ended => accepted.workers ?_, comes⟩
      rw [← length, nobodyMarked ended]
      rfl
    next takes =>
      exact Machine.first_race_of_the_unwilling keeps planning_contained fits run nobody there
        (fun p source bound => (asks p source bound).trans (if_neg takes)) planning_decided more

/-- Two workers around an arm of one joint. -/
def quarterTurn : Scenario where
  race := { workers := 2, baseSeed := some 7 }
  world := { joints := [{ name := "j0", length := 1 }] }
  problem := .toConfiguration [0] [1.5]

theorem first_race_of_a_quarter_turn :
    ∃ workers after m later, quarterTurn.pool (.ofSeed 0) = (.ok (.ok workers), after) ∧
      (Machine.ofWorkers workers quarterTurn.race.waits false after).workerIds = [0, 1] ∧
      (Machine.ofWorkers workers quarterTurn.race.waits false after).steps
        [.arrive quarterTurn.problem] = some m ∧
      ∃ own, (∀ event ∈ own, event.party? = some (.call 0)) ∧
        m.steps (.call 0 :: own) = some later ∧ m.keptBy 0 (.call 0 :: own) = [0, 1] := by
  have checked : quarterTurn.check = .ok () := rfl
  obtain ⟨-, -, -, workers, after, built, ids, -, first⟩ :=
    accepted_scenario_is_provisioned checked (.ofSeed 0)
  have nobody (event : Event planning) (listed : event ∈ [.arrive quarterTurn.problem]) :
      event.party? = none := by
    rw [List.mem_singleton.mp listed]
    rfl
  have race := first false [.arrive quarterTurn.problem] _ 0 rfl nobody rfl [] _ rfl
  rw [if_pos (by decide)] at race
  obtain ⟨-, -, own, last, owns, run, kept⟩ := race
  exact ⟨workers, after, _, last, built, ids false, rfl, own, owns, run, kept⟩

end MotionRace
