import MotionRace.Pool.Worker

/-!
# Building a pool

A pool has one worker per checker, each around its own copy of the world. A checker whose copy or
installation fails is left out; the workers after it keep their position as id and their seed. All
copies are taken before the first worker is built.
-/

namespace MotionRace

variable {σ : Type} {D : Domain σ}

/-- So many copies of a world, each on its own: one that fails does not keep the others from being
taken. A panic ends it all. -/
def copies (world : D.World) :
    (count : Nat) → σ → Except Panic (List (Except CloneError D.World)) × σ
  | 0, shared => (.ok [], shared)
  | count + 1, shared =>
    match D.copy world shared with
    | (.error panic, shared) => (.error panic, shared)
    | (.ok copy, shared) =>
      match copies world count shared with
      | (.error panic, shared) => (.error panic, shared)
      | (.ok rest, shared) => (.ok (copy :: rest), shared)

/-- As many worlds or failures come out as copies were asked for. -/
theorem length_of_copies {world : D.World} {count : Nat} {shared : σ}
    {made : List (Except CloneError D.World)} {after : σ}
    (h : copies world count shared = (.ok made, after)) : made.length = count := by
  induction count generalizing shared made with
  | zero =>
    cases h
    rfl
  | succ count ih =>
    unfold copies at h
    split at h
    · cases h
    · split at h
      · cases h
      · next rest _ hrest =>
        cases h
        simp [ih hrest]

/-- The workers at positions `id`, `id + 1`, … and the last thing that kept one out. -/
def buildWorkers (template : D.Solver) (seeds : List UInt64) :
    (id : Nat) → List (D.Backend × Except CloneError D.World) → Option CloneError → σ →
      (List (Worker D) × Option CloneError) × σ
  | _, [], last, shared => (([], last), shared)
  | id, (_, .error e) :: rest, _, shared =>
    buildWorkers template seeds (id + 1) rest (some e) shared
  | id, (backend, .ok world) :: rest, last, shared =>
    match Worker.build id template world backend seeds[id]? shared with
    | (.error e, shared) => buildWorkers template seeds (id + 1) rest (some e) shared
    | (.ok worker, shared) =>
      let ((workers, last), shared) := buildWorkers template seeds (id + 1) rest last shared
      ((worker :: workers, last), shared)

/-- Workers built one by one, each around a world of its own. -/
def Worker.buildEach (template : D.Solver) (world : D.World) (seeds : List UInt64) :
    (id : Nat) → List D.Backend → σ → List (Except CloneError (Worker D)) × σ
  | _, [], shared => ([], shared)
  | id, backend :: rest, shared =>
    let (built, shared) := Worker.build id template world backend seeds[id]? shared
    let (more, shared) := buildEach template world seeds (id + 1) rest shared
    (built :: more, shared)

/-- Build a pool: one worker per checker, seeds paired with the checkers if there are any. -/
def provision (template : D.Solver) (world : D.World) (backends : List D.Backend)
    (seeds : List UInt64) (shared : σ) :
    Except Panic (Except ConfigurationError (List (Worker D))) × σ :=
  if backends.isEmpty then (.ok (.error .noBackends), shared)
  else if !seeds.isEmpty && seeds.length != backends.length then
    (.ok (.error (.seedCountMismatch backends.length seeds.length)), shared)
  else
    match copies world backends.length shared with
    | (.error panic, shared) => (.error panic, shared)
    | (.ok copies, shared) =>
      match buildWorkers template seeds 0 (backends.zip copies) none shared with
      | (([], some last), shared) => (.ok (.error (.noWorkers backends.length last)), shared)
      | ((workers, _), shared) => (.ok (.ok workers), shared)

end MotionRace
