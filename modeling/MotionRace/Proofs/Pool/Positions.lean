import MotionRace.Planner.Domain
import MotionRace.Proofs.Planner.ReturnedPlans
import MotionRace.Proofs.Pool.Journal
import MotionRace.Scripted.Domain

/-!
# Workers keep their positions

A pool is built from as many copies of the world as there are checkers. A position whose copy or
whose checker fails gets no worker, and no other position notices: its worker has the position for
id, the seed of the position and the checker of the position, on a world like the source. Where
nobody survives, the error is the one of the last position.

A copy that panics takes the whole attempt down; the copies after it are not taken.

Main statement: `provision_exact`.
-/

namespace MotionRace

variable {σ : Type} {D : Domain σ}

/-- A copy that is made is like its source. -/
structure Domain.Faithful (D : Domain σ) : Prop where
  copy : ∀ world shared copy after, D.copy world shared = (.ok (.ok copy), after) → copy = world

theorem planning_faithful : planning.Faithful where
  copy _ _ _ _ copied := Arm.eq_of_copy (Except.ok.inj (congrArg Prod.fst copied))

theorem Scripted.Script.faithful {α β : Type} (s : Scripted.Script α β) : s.domain.Faithful where
  copy world tally copy after copied := by
    simp only [Script.domain, Script.copy] at copied
    split at copied
    · cases copied
    · split at copied
      · cases copied
      · split at copied
        · cases copied
        · cases copied
          rfl

/-! ## Places -/

/-- What a checker becomes with the copy that was taken for it: the world and the checker of a
worker, or what keeps the worker out. -/
def Domain.fitted (D : Domain σ) (backend : D.Backend) (copy : Except CloneError D.World) :
    Except CloneError (D.World × D.Backend) :=
  match copy with
  | .error failure => .error failure
  | .ok world => (D.install backend world).map (world, ·)

/-- What a position of a pool comes to. There is no answer where there is no such position, or
where its copy panics. -/
def Domain.placeAt (D : Domain σ) (world : D.World) (backends : List D.Backend) (shared : σ)
    (i : Nat) : Option (Except CloneError (D.World × D.Backend)) :=
  match backends[i]?, D.copyAt world i shared with
  | some backend, .ok copy => some (D.fitted backend copy)
  | _, _ => none

theorem Domain.placeAt_eq_ok {world copy : D.World} {backends : List D.Backend} {shared : σ}
    {i : Nat} {installed : D.Backend}
    (placed : D.placeAt world backends shared i = some (.ok (copy, installed))) :
    D.copyAt world i shared = .ok (.ok copy) ∧
      ∃ backend, backends[i]? = some backend ∧ D.install backend copy = .ok installed := by
  unfold placeAt at placed
  split at placed
  next backend made mine own =>
    rcases made with failure | made
    · cases placed
    · rw [fitted] at placed
      cases ready : D.install backend made with
      | error failure =>
        rw [ready] at placed
        cases placed
      | ok other =>
        rw [ready] at placed
        cases placed
        exact ⟨own, backend, mine, ready⟩
  · cases placed

theorem Domain.Faithful.copyAt {world copy : D.World} {shared : σ} {i : Nat}
    (faithful : D.Faithful) (copied : D.copyAt world i shared = .ok (.ok copy)) : copy = world :=
  faithful.copy world _ copy _ (Prod.ext copied rfl)

/-- Whether a position of a pool gets its worker. -/
def Domain.survives (D : Domain σ) (world : D.World) (backends : List D.Backend) (shared : σ)
    (i : Nat) : Bool :=
  (D.placeAt world backends shared i).any Except.isOk

/-- A worker that fits its place. -/
structure Worker.Fits (template : D.Solver) (seeds : List UInt64)
    (place : Nat → Option (Except CloneError (D.World × D.Backend))) (w : Worker D) : Prop where
  place : place w.id = some (.ok (w.world, w.backend))
  seed : w.seed = seeds[w.id]?
  solver : ∃ before, w.solver = (D.bindSolver template w.world w.seed before).1

/-- The places of a stretch of positions. -/
def Domain.Places (D : Domain σ) (place : Nat → Option (Except CloneError (D.World × D.Backend)))
    (id : Nat) (positions : List (D.Backend × Except CloneError D.World)) : Prop :=
  ∀ i position, positions[i]? = some position →
    place (id + i) = some (D.fitted position.1 position.2)

section Build

variable {template : D.Solver} {seeds : List UInt64} {id : Nat}
  {position : D.Backend × Except CloneError D.World}
  {positions : List (D.Backend × Except CloneError D.World)} {last : Option CloneError} {shared : σ}
  {place : Nat → Option (Except CloneError (D.World × D.Backend))}

theorem Domain.Places.head (places : D.Places place id (position :: positions)) :
    place id = some (D.fitted position.1 position.2) :=
  places 0 position rfl

theorem Domain.Places.tail (places : D.Places place id (position :: positions)) :
    D.Places place (id + 1) positions := by
  intro i other listed
  rw [Nat.add_assoc, Nat.add_comm 1 i]
  exact places (i + 1) other listed

variable (template seeds last shared) in
/-- The workers are those of the positions that survive, in order. -/
theorem buildWorkers_fits (places : D.Places place id positions) :
    let built := (buildWorkers template seeds id positions last shared).1
    built.1.map Worker.id =
        (List.range' id positions.length).filter (fun i => (place i).any Except.isOk) ∧
      ∀ w ∈ built.1, w.Fits template seeds place := by
  induction positions generalizing id last shared with
  | nil => exact ⟨rfl, nofun⟩
  | cons position rest ih =>
    have here := places.head
    rw [List.length_cons, List.range'_succ, List.filter_cons, here]
    rcases position with ⟨backend, failure | world⟩
    · exact ih _ _ places.tail
    · rcases installed : D.install backend world with failure | ready
      · simp only [Domain.fitted, buildWorkers, Worker.build, installed]
        exact ih _ _ places.tail
      · rcases bound : D.bindSolver template world seeds[id]? shared with ⟨solver, later⟩
        obtain ⟨ids, fits⟩ := ih last later places.tail
        simp only [Domain.fitted, buildWorkers, Worker.build, installed, bound] at here ⊢
        have first : Worker.Fits (D := D) template seeds place
            ⟨id, solver, world, ready, seeds[id]?⟩ :=
          ⟨here, rfl, shared, (congrArg Prod.fst bound).symm⟩
        exact ⟨congrArg (id :: ·) ids, List.forall_mem_cons.mpr ⟨first, fits⟩⟩

/-- Where nobody survives, what is left is the error of the last position. -/
theorem buildWorkers_last (places : D.Places place id (position :: positions))
    (nobody : (buildWorkers template seeds id (position :: positions) last shared).1.1 = []) :
    ∃ failure,
      (buildWorkers template seeds id (position :: positions) last shared).1.2 = some failure ∧
      place (id + positions.length) = some (.error failure) := by
  induction positions generalizing id position last shared with
  | nil =>
    have here := places.head
    rcases position with ⟨backend, failure | world⟩
    · exact ⟨failure, rfl, here⟩
    · rcases installed : D.install backend world with failure | ready
      · simp only [Domain.fitted, buildWorkers, Worker.build, installed] at here ⊢
        exact ⟨failure, rfl, here⟩
      · simp only [buildWorkers, Worker.build, installed] at nobody
        cases nobody
  | cons next rest ih =>
    have later (last : Option CloneError)
        (nobody : (buildWorkers template seeds (id + 1) (next :: rest) last shared).1.1 = []) :=
      ih places.tail nobody
    rw [Nat.add_right_comm] at later
    rcases position with ⟨backend, failure | world⟩
    · exact later (some failure) nobody
    · rcases installed : D.install backend world with failure | ready
      · rw [buildWorkers, Worker.build, installed] at nobody ⊢
        exact later (some failure) nobody
      · simp only [buildWorkers, Worker.build, installed] at nobody
        cases nobody

end Build

/-! ## The pool -/

section Pool

variable {template : D.Solver} {world : D.World} {backends : List D.Backend} {seeds : List UInt64}
  {shared after : σ} {made : List (Except CloneError D.World)}

/-- Checkers and the copies that were taken for them are at their places. -/
theorem places_of_copies (taken : copies world backends.length shared = (.ok made, after)) :
    D.Places (D.placeAt world backends shared) 0 (backends.zip made) := by
  rintro i ⟨backend, copy⟩ listed
  obtain ⟨mine, own⟩ := List.getElem?_zip_eq_some.mp listed
  rw [Nat.zero_add, Domain.placeAt, mine, copyAt_of_copies taken i copy own]

theorem length_zip_of_copies (taken : copies world backends.length shared = (.ok made, after)) :
    (backends.zip made).length = backends.length := by
  rw [List.length_zip, length_of_copies taken, Nat.min_self]

variable (template) in
/-- The workers that come of an attempt whose copies come back, and what it asked for. -/
theorem provision_fits (any : backends ≠ []) (paired : seeds = [] ∨ seeds.length = backends.length)
    (taken : copies world backends.length shared = (.ok made, after)) :
    ∃ workers : List (Worker D),
      provisionCalls template world backends seeds shared =
        List.replicate backends.length (.copies world) ++ workers.map (Worker.binding template) ∧
      workers.map Worker.id =
        (List.range backends.length).filter (D.survives world backends shared) ∧
      (∀ w ∈ workers, w.Fits template seeds (D.placeAt world backends shared)) ∧
      (workers ≠ [] →
        (provision template world backends seeds shared).1 = .ok (.ok workers)) ∧
      (workers = [] → ∃ last,
        D.placeAt world backends shared (backends.length - 1) = some (.error last) ∧
        (provision template world backends seeds shared).1 =
          .ok (.error (.noWorkers backends.length last))) := by
  have places := places_of_copies taken
  have length := length_zip_of_copies taken
  obtain ⟨ids, fits⟩ := buildWorkers_fits template seeds none after places
  rw [length, ← List.range_eq_range'] at ids
  refine ⟨_, ?_, ids, fits, ?_, ?_⟩
  · have journaled := copies_journaled [] taken
    rw [provisionCalls, provision_of_copies (D := D.journaled) any paired journaled,
      buildWorkers_journaled, List.nil_append]
  · intro survived
    rw [provision_of_copies any paired taken]
    rcases built : buildWorkers template seeds 0 (backends.zip made) none after with
      ⟨⟨_ | ⟨worker, workers⟩, last⟩, later⟩
    · rw [built] at survived
      exact absurd rfl survived
    · rfl
  · intro nobody
    rw [provision_of_copies any paired taken]
    rcases zipped : backends.zip made with _ | ⟨position, rest⟩
    · rw [zipped] at length
      exact absurd (List.length_eq_zero_iff.mp length.symm) any
    · rw [zipped] at places length nobody
      obtain ⟨failure, kept, there⟩ := buildWorkers_last places nobody
      rw [Nat.zero_add] at there
      refine ⟨failure, ?_, ?_⟩
      · rw [← length]
        exact there
      · rcases built : buildWorkers template seeds 0 (position :: rest) none after with
          ⟨⟨workers, last⟩, later⟩
        rw [built] at nobody kept
        cases nobody
        cases kept
        rfl

/-- Building a pool comes to what its positions come to. Without checkers, or with seeds that do not
pair with them, nothing is asked for at all. Otherwise the source is copied once for each checker
and is asked for nothing else, and one solver is bound for each position that survives. -/
theorem provision_exact (faithful : D.Faithful) (template : D.Solver) (world : D.World)
    (backends : List D.Backend) (seeds : List UInt64) (shared : σ) :
    let count := backends.length
    let made := provision template world backends seeds shared
    let calls := provisionCalls template world backends seeds shared
    (backends = [] → made = (.ok (.error .noBackends), shared) ∧ calls = []) ∧
    (backends ≠ [] → seeds ≠ [] → seeds.length ≠ count →
      made = (.ok (.error (.seedCountMismatch count seeds.length)), shared) ∧ calls = []) ∧
    (backends ≠ [] → (seeds = [] ∨ seeds.length = count) →
      -- All copies come back, be they worlds or errors.
      ((∀ i < count, ∃ copy, D.copyAt world i shared = .ok copy) → ∃ workers : List (Worker D),
        calls = List.replicate count (.copies world) ++ workers.map (Worker.binding template) ∧
        workers.map Worker.id = (List.range count).filter (D.survives world backends shared) ∧
        (∀ w ∈ workers, w.world = world ∧ w.seed = seeds[w.id]? ∧
          (∃ backend, backends[w.id]? = some backend ∧ D.install backend world = .ok w.backend) ∧
          ∃ before, w.solver = (D.bindSolver template world w.seed before).1) ∧
        (workers ≠ [] → made.1 = .ok (.ok workers)) ∧
        (workers = [] → ∃ last, D.placeAt world backends shared (count - 1) = some (.error last) ∧
          made.1 = .ok (.error (.noWorkers count last)))) ∧
      -- A copy panics, and none before it does.
      (∀ i < count, ∀ panic, D.copyAt world i shared = .error panic →
        (∀ j < i, ∃ copy, D.copyAt world j shared = .ok copy) →
        made.1 = .error panic ∧ calls = List.replicate (i + 1) (.copies world))) := by
  refine ⟨?_, ?_, ?_⟩
  · rintro rfl
    exact ⟨provision_nil, rfl⟩
  · intro any seeded unpaired
    refine ⟨provision_of_unpaired any seeded unpaired, ?_⟩
    rw [provisionCalls, provision_of_unpaired (D := D.journaled) any seeded unpaired]
  intro any paired
  rcases taken : copies world backends.length shared with ⟨panic | made, after⟩
  · obtain ⟨i, inside, panics, back, journaled⟩ := copies_journaled_of_panic taken
    refine ⟨?_, ?_⟩
    · intro all
      obtain ⟨copy, comes⟩ := all i inside
      cases panics.symm.trans comes
    · intro first _ other takes before
      -- There is one first copy that panics.
      have same : first = i := by
        rcases Nat.lt_trichotomy first i with below | same | above
        · obtain ⟨copy, comes⟩ := back first below
          cases takes.symm.trans comes
        · exact same
        · obtain ⟨copy, comes⟩ := before i above
          cases panics.symm.trans comes
      subst same
      cases panics.symm.trans takes
      rw [provisionCalls, provision_of_panic any paired taken,
        provision_of_panic (D := D.journaled) any paired (journaled [])]
      exact ⟨rfl, rfl⟩
  · refine ⟨?_, ?_⟩
    · intro _
      obtain ⟨workers, calls, ids, fits, pool, nobody⟩ :=
        provision_fits template any paired taken
      refine ⟨workers, calls, ids, ?_, pool, nobody⟩
      intro w listed
      obtain ⟨placed, seed, solver⟩ := fits w listed
      obtain ⟨copied, installed⟩ := Domain.placeAt_eq_ok placed
      rw [faithful.copyAt copied] at installed solver
      rw [seed] at solver ⊢
      exact ⟨faithful.copyAt copied, rfl, installed, solver⟩
    · intro i inside panic takes _
      have listed := List.getElem?_eq_getElem ((length_of_copies taken).symm ▸ inside)
      cases takes.symm.trans (copyAt_of_copies taken i _ listed)

end Pool

/-- Three checkers of which the second refuses every world. -/
def Scripted.threeCheckers : List (Scripted.Checker Nat) :=
  [{ name := "first", limit := 9 }, { name := "second", limit := 9, refusal := some "no" },
    { name := "third", limit := 9 }]

/-- A script without solvers. -/
def Scripted.Script.nobody : Scripted.Script Nat Nat where
  acts := []

/-- The second of three checkers refuses, and the third position keeps its id and its seed. -/
theorem provision_around_a_refusal :
    ∃ workers : List (Worker Scripted.Script.nobody.domain),
      (provision (D := Scripted.Script.nobody.domain) ({} : Scripted.Solver)
        (⟨[1, 2], false⟩ : Scripted.World Nat) Scripted.threeCheckers [7, 8, 9]
        (Scripted.Tally.ofLength 0)).1 = .ok (.ok workers) ∧
      provisionCalls (D := Scripted.Script.nobody.domain) ({} : Scripted.Solver)
          (⟨[1, 2], false⟩ : Scripted.World Nat) Scripted.threeCheckers [7, 8, 9]
          (Scripted.Tally.ofLength 0) =
        List.replicate 3 (.copies (⟨[1, 2], false⟩ : Scripted.World Nat)) ++
          workers.map (Worker.binding ({} : Scripted.Solver)) ∧
      workers.map Worker.id = [0, 2] ∧ workers.map Worker.seed = [some 7, some 9] ∧
      ∀ w ∈ workers, w.world = (⟨[1, 2], false⟩ : Scripted.World Nat) := by
  obtain ⟨-, -, attempt⟩ := provision_exact (Scripted.Script.faithful Scripted.Script.nobody)
    ({} : Scripted.Solver) (⟨[1, 2], false⟩ : Scripted.World Nat) Scripted.threeCheckers [7, 8, 9]
    (Scripted.Tally.ofLength 0)
  have back : ∀ i < 3, ∃ copy, Scripted.Script.nobody.domain.copyAt
      (⟨[1, 2], false⟩ : Scripted.World Nat) i (Scripted.Tally.ofLength 0) = .ok copy := by
    intro i _
    exact ⟨_, rfl⟩
  obtain ⟨workers, calls, ids, each, pool, -⟩ := (attempt (List.cons_ne_nil _ _) (.inr rfl)).1 back
  have ids : workers.map Worker.id = [0, 2] := ids.trans rfl
  refine ⟨workers, pool ?_, calls, ids, ?_, fun w listed => (each w listed).1⟩
  · rintro rfl
    cases ids
  · have seeds : workers.map Worker.seed = (workers.map Worker.id).map ([7, 8, 9][·]?) := by
      rw [List.map_map]
      exact List.map_congr_left fun w listed => (each w listed).2.1
    rw [seeds, ids]
    rfl

end MotionRace
