import MotionRace.Proofs.Planner.Meets

/-!
# The course of a search

A search is a computation on an arena, and what it did on the way is lost when it is over. Its
course is the search as a tree of what it does next: it asks, checks a state, looks where the end
effector is, or draws, and goes on from what it finds. The course depends on the settings and the
problem alone. Performed on an arena it is the search (`Course.perform_search`), so what the course
does there, one thing after another, is what the search does.

`Course.events` writes down what is done in this way.
-/

namespace MotionRace

open MotionRace.Geometry (Region)
open MotionRace.Random (WordStream)

instance {κ : Type} : LawfulMonad (Polling κ) :=
  LawfulMonad.mk' _ Polling.bind_done (fun _ _ => rfl) Polling.bind_assoc

/-- A search as a tree of what it does next. -/
inductive Course (α : Type) where
  | done (value : α)
  | panics (p : Panic)
  /-- It asks whether to stop. -/
  | asks (next : Bool → Course α)
  /-- It puts the arm into a configuration and has it checked. -/
  | checks (q : Configuration) (next : Bool → Course α)
  /-- It looks where the end effector is. -/
  | looks (next : Geometry.Point Float → Course α)
  /-- It counts the joints. -/
  | counts (next : Nat → Course α)
  /-- It draws a configuration. -/
  | draws (next : Configuration → Course α)

namespace Course

variable {α β : Type}

/-- Go on from a result. -/
def bind : Course α → (α → Course β) → Course β
  | .done value, f => f value
  | .panics p, _ => .panics p
  | .asks next, f => .asks fun stopped => (next stopped).bind f
  | .checks q next, f => .checks q fun valid => (next valid).bind f
  | .looks next, f => .looks fun there => (next there).bind f
  | .counts next, f => .counts fun dof => (next dof).bind f
  | .draws next, f => .draws fun q => (next q).bind f

instance : Monad Course where
  pure := .done
  bind := bind

def shouldStop : Course Bool := .asks .done

def stateValid (q : Configuration) : Course Bool := .checks q .done

def endEffector : Course (Geometry.Point Float) := .looks .done

def dof : Course Nat := .counts .done

def sample : Course Configuration := .draws .done

/-! ## The course of a solve -/

/-- Check the states of a segment, from number `i` on, `left` of them. -/
def checkStates (a b : Configuration) (steps : Nat) : (left i : Nat) → Course Bool
  | 0, _ => return true
  | left + 1, i => do
    if ← shouldStop then return false
    match interpolate a b (shareOf i steps) with
    | .error p => .panics p
    | .ok q => if ← stateValid q then checkStates a b steps left (i + 1) else return false

def segmentValid (resolution : Float) (a b : Configuration) : Course Bool :=
  let steps := stepCount resolution (span a b)
  checkStates a b steps (steps + 1) 0

/-- Try `left` random via points between start and goal. -/
def tryVias (s : Settings) (start goal : Configuration) :
    (left : Nat) → Course (Except SolveFailure Trajectory)
  | 0 => do
    if ← shouldStop then return .error .cancelled
    return .error .exhausted
  | left + 1 => do
    if ← shouldStop then return .error .cancelled
    let via ← sample
    if ← stateValid via then
      if ← segmentValid s.resolution start via then
        if ← segmentValid s.resolution via goal then
          return .ok ⟨[start, via, goal]⟩
    tryVias s start goal left

def connect (s : Settings) (start goal : Configuration) :
    Course (Except SolveFailure Trajectory) := do
  if ← segmentValid s.resolution start goal then return .ok ⟨[start, goal]⟩
  if ← shouldStop then return .error .cancelled
  tryVias s start goal s.maxAttempts

/-- Draw `left` goal candidates and join the start to the first that allows it. -/
def reachRegion (s : Settings) (start : Configuration) (region : Region Float) :
    (left : Nat) → (found : Bool) → Course (Except SolveFailure Trajectory)
  | 0, found => return .error (if found then .exhausted else .invalidGoal)
  | left + 1, found => do
    if ← shouldStop then return .error .cancelled
    let q ← sample
    if ← stateValid q then
      if region.contains (← endEffector) then
        match ← connect s start q with
        | .error .exhausted => reachRegion s start region left true
        | result => return result
      else reachRegion s start region left found
    else reachRegion s start region left found

/-- The course of a search for a problem. -/
def search (s : Settings) (problem : Problem) : Course (Except SolveFailure Trajectory) := do
  let start := problem.start
  let dof ← dof
  if start.length ≠ dof then return .error .invalidStart
  if !(← stateValid start) then return .error .invalidStart
  match problem with
  | .toConfiguration _ goal =>
    if goal.length ≠ start.length then return .error .invalidGoal
    if !(← stateValid goal) then return .error .invalidGoal
    if distance start goal == 0 then return .ok ⟨[start]⟩
    connect s start goal
  | .toRegion _ region =>
    if region.contains (← endEffector) then return .ok ⟨[start]⟩
    reachRegion s start region s.goalSamples false

/-! ## Performing a course -/

/-- The search that goes along a course, with draws from the given limits. -/
def perform (limits : List (Float × Float)) : Course α → Search α
  | .done value => pure value
  | .panics p => Search.panic p
  | .asks next => Search.shouldStop >>= fun stopped => (next stopped).perform limits
  | .checks q next => Search.stateValid q >>= fun valid => (next valid).perform limits
  | .looks next => Search.endEffector >>= fun there => (next there).perform limits
  | .counts next => Search.dof >>= fun dof => (next dof).perform limits
  | .draws next => Search.sample limits >>= fun q => (next q).perform limits

variable {limits : List (Float × Float)}

/-- What is performed of a step and of what follows it. -/
theorem step_bind {γ : Type} {step : Search γ} {next : γ → Course α} {f : α → Course β}
    (ih : ∀ found, (next found >>= f).perform limits =
      (next found).perform limits >>= fun a => (f a).perform limits) :
    (step >>= fun found => (next found >>= f).perform limits) =
      (step >>= fun found => (next found).perform limits) >>= fun a => (f a).perform limits := by
  rw [bind_assoc]
  exact congrArg (step >>= ·) (funext ih)

theorem perform_bind (x : Course α) (f : α → Course β) :
    (x >>= f).perform limits = x.perform limits >>= fun a => (f a).perform limits := by
  induction x with
  | done value => exact (pure_bind (m := Search) value fun a => (f a).perform limits).symm
  | panics p => rfl
  | asks next ih => exact step_bind ih
  | checks q next ih => exact step_bind ih
  | looks next ih => exact step_bind ih
  | counts next ih => exact step_bind ih
  | draws next ih => exact step_bind ih

/-- Whether a search is what is performed of a course. -/
def Performs (limits : List (Float × Float)) (c : Course α) (x : Search α) : Prop :=
  c.perform limits = x

theorem performs_pure {a : α} : Performs limits (pure a) (pure a) := rfl

theorem performs_bind {c : Course α} {x : Search α} {f : α → Course β} {g : α → Search β}
    (first : Performs limits c x) (rest : ∀ a, Performs limits (f a) (g a)) :
    Performs limits (c >>= f) (x >>= g) := by
  refine (perform_bind c f).trans ?_
  exact congr (congrArg _ first) (funext rest)

theorem performs_shouldStop : Performs limits shouldStop Search.shouldStop := bind_pure _

theorem performs_stateValid (q : Configuration) :
    Performs limits (stateValid q) (Search.stateValid q) := bind_pure _

theorem performs_endEffector : Performs limits endEffector Search.endEffector := bind_pure _

theorem performs_dof : Performs limits dof Search.dof := bind_pure _

theorem performs_sample : Performs limits sample (Search.sample limits) := bind_pure _

theorem performs_unlessStopped {early : α} {c : Course α} {x : Search α}
    (rest : Performs limits c x) :
    Performs limits (shouldStop >>= fun stopped => if stopped then pure early else c)
      (Search.shouldStop >>= fun stopped => if stopped then pure early else x) := by
  refine performs_bind performs_shouldStop ?_
  intro stopped
  cases stopped with
  | true => exact performs_pure
  | false => exact rest

theorem performs_checkStates (a b : Configuration) (steps left i : Nat) :
    Performs limits (checkStates a b steps left i) (Planner.checkStates a b steps left i) := by
  induction left generalizing i with
  | zero => exact performs_pure
  | succ left ih =>
    apply performs_unlessStopped
    cases interpolate a b (shareOf i steps) with
    | error p => rfl
    | ok q =>
      refine performs_bind (performs_stateValid q) ?_
      intro valid
      cases valid with
      | true => exact ih (i + 1)
      | false => exact performs_pure

theorem performs_segmentValid (resolution : Float) (a b : Configuration) :
    Performs limits (segmentValid resolution a b) (Planner.segmentValid resolution a b) :=
  performs_checkStates a b _ _ 0

variable {p : Planner} {start goal : Configuration}

theorem performs_tryVias (left : Nat) :
    Performs p.limits (tryVias p.settings start goal left) (p.tryVias start goal left) := by
  induction left with
  | zero =>
    apply performs_unlessStopped
    exact performs_pure
  | succ left ih =>
    apply performs_unlessStopped
    refine performs_bind performs_sample ?_
    intro via
    refine performs_bind (performs_stateValid via) ?_
    intro valid
    cases valid with
    | false => exact ih
    | true =>
      refine performs_bind (performs_segmentValid _ start via) ?_
      intro first
      cases first with
      | false => exact ih
      | true =>
        refine performs_bind (performs_segmentValid _ via goal) ?_
        intro second
        cases second with
        | false => exact ih
        | true => exact performs_pure

theorem performs_connect :
    Performs p.limits (connect p.settings start goal) (p.connect start goal) := by
  refine performs_bind (performs_segmentValid _ start goal) ?_
  intro straight
  cases straight with
  | true => exact performs_pure
  | false =>
    apply performs_unlessStopped
    exact performs_tryVias _

theorem performs_reachRegion (region : Region Float) (left : Nat) (found : Bool) :
    Performs p.limits (reachRegion p.settings start region left found)
      (p.reachRegion start region left found) := by
  induction left generalizing found with
  | zero => exact performs_pure
  | succ left ih =>
    apply performs_unlessStopped
    refine performs_bind performs_sample ?_
    intro q
    refine performs_bind (performs_stateValid q) ?_
    intro valid
    cases valid with
    | false => exact ih found
    | true =>
      refine performs_bind performs_endEffector ?_
      intro there
      cases region.contains there with
      | false => exact ih found
      | true =>
        refine performs_bind performs_connect ?_
        intro result
        cases result with
        | ok t => exact performs_pure
        | error reason =>
          cases reason with
          | exhausted => exact ih true
          | _ => exact performs_pure

/-- Performed on an arena, the course of a search is the search. -/
theorem perform_search (p : Planner) (problem : Problem) :
    (search p.settings problem).perform p.limits = p.search problem := by
  show Performs _ _ _
  refine performs_bind performs_dof ?_
  intro dof
  split
  next => exact performs_pure
  next =>
    refine performs_bind (performs_stateValid _) ?_
    intro begins
    cases begins with
    | false => exact performs_pure
    | true =>
      cases problem with
      | toConfiguration start goal =>
        simp only [Bool.not_true, Bool.false_eq_true, if_false]
        split
        next => exact performs_pure
        next =>
          refine performs_bind (performs_stateValid goal) ?_
          intro reaches
          cases reaches with
          | false => exact performs_pure
          | true =>
            simp only [Bool.not_true, Bool.false_eq_true, if_false]
            split
            next => exact performs_pure
            next => exact performs_connect
      | toRegion start region =>
        simp only [Bool.not_true, Bool.false_eq_true, if_false]
        refine performs_bind performs_endEffector ?_
        intro there
        split
        next => exact performs_pure
        next => exact performs_reachRegion region _ false

/-! ## What is done along a course -/

/-- Something that a search does, with what it found. -/
inductive Event where
  | asked (stopped : Bool)
  | checked (q : Configuration) (valid : Bool)
  | drew (q : Configuration)
  deriving Repr

def Event.isQuestion : Event → Bool
  | .asked _ => true
  | _ => false

def Event.isCheck : Event → Bool
  | .checked .. => true
  | _ => false

/-- The configuration of a draw. -/
def Event.drawn? : Event → Option Configuration
  | .drew q => some q
  | _ => none

/-- What is done along a course that is performed on an arena, under the answers from number `asked`
on. A refused draw is the end, and draws nothing. -/
def events (limits : List (Float × Float)) (stops : Nat → Bool) :
    Course α → (asked : Nat) → Arena → List Event
  | .done _, _, _ => []
  | .panics _, _, _ => []
  | .asks next, asked, arena =>
    .asked (stops asked) :: (next (stops asked)).events limits stops (asked + 1) arena
  | .checks q next, asked, arena =>
    let arm := arena.arm.setPositions q
    let (valid, checker) := arena.checker.check arm
    .checked q valid :: (next valid).events limits stops asked { arena with arm, checker }
  | .looks next, asked, arena => (next arena.arm.endEffector).events limits stops asked arena
  | .counts next, asked, arena => (next arena.arm.dof).events limits stops asked arena
  | .draws next, asked, arena =>
    match Random.drawAll limits arena.stream with
    | (.error _, _) => []
    | (.ok q, stream) => .drew q :: (next q).events limits stops asked { arena with stream }

/-- Whether what is done along a course and what it comes to are as described. -/
def Does (c : Course α) (limits : List (Float × Float)) (stops : Nat → Bool) (asked : Nat)
    (arena : Arena) (post : List Event → Except Panic α → Nat → Arena → Prop) : Prop :=
  (c.perform limits).Meets stops asked arena (post (c.events limits stops asked arena))

section Does

variable {stops : Nat → Bool} {asked : Nat} {arena : Arena}
  {post : List Event → Except Panic α → Nat → Arena → Prop}

theorem does_asks {next : Bool → Course α}
    (goesOn : (next (stops asked)).Does limits stops (asked + 1) arena fun events =>
      post (.asked (stops asked) :: events)) :
    (asks next).Does limits stops asked arena post :=
  goesOn

theorem does_checks {q : Configuration} {next : Bool → Course α}
    (goesOn : (next (arena.checker.accepts (arena.arm.setPositions q))).Does limits stops asked
      { arena with
        arm := arena.arm.setPositions q
        checker := { arena.checker with checks := arena.checker.checks + 1 } }
      fun events => post
        (.checked q (arena.checker.accepts (arena.arm.setPositions q)) :: events)) :
    (checks q next).Does limits stops asked arena post :=
  goesOn

theorem does_looks {next : Geometry.Point Float → Course α}
    (goesOn : (next arena.arm.endEffector).Does limits stops asked arena post) :
    (looks next).Does limits stops asked arena post :=
  goesOn

theorem does_counts {next : Nat → Course α}
    (goesOn : (next arena.arm.dof).Does limits stops asked arena post) :
    (counts next).Does limits stops asked arena post :=
  goesOn

theorem does_draws {next : Configuration → Course α}
    (refused : ∀ p stream, Random.drawAll limits arena.stream = (.error p, stream) →
      post [] (.error p) asked { arena with stream })
    (goesOn : ∀ q stream, Random.drawAll limits arena.stream = (.ok q, stream) →
      (next q).Does limits stops asked { arena with stream } fun events =>
        post (.drew q :: events)) :
    (draws next).Does limits stops asked arena post := by
  have parts : (draws next).perform limits arena =
      ExceptT.bindCont (fun q => (next q).perform limits) (Random.drawAll limits arena.stream).1
        { arena with stream := (Random.drawAll limits arena.stream).2 } := rfl
  unfold Does Search.Meets events
  rw [parts]
  rcases drawn : Random.drawAll limits arena.stream with ⟨p | q, stream⟩
  · exact refused p stream drawn
  · exact goesOn q stream drawn

end Does

end Course

/-- What a solve does on a scratch arm, one thing after another. -/
def Planner.events (p : Planner) (problem : Problem) (arm : Arm) (checker : ObstacleChecker)
    (stops : Nat → Bool) (asked : Nat) : List Course.Event :=
  (Course.search p.settings problem).events p.limits stops asked ⟨arm, checker, p.stream⟩

/-- What is described of the course of a search holds of the solve. -/
theorem Course.Does.solve {p : Planner} {problem : Problem} {arm : Arm} {checker : ObstacleChecker}
    {stops : Nat → Bool} {asked : Nat}
    {post : List Event → Except Panic (Except SolveFailure Trajectory) → Nat → Arena → Prop}
    (does : (search p.settings problem).Does p.limits stops asked ⟨arm, checker, p.stream⟩ post) :
    post (p.events problem arm checker stops asked)
      ((p.solve problem arm checker).answers stops asked).1.1
      ((p.solve problem arm checker).answers stops asked).2
      ((p.solve problem arm checker).answers stops asked).1.2 := by
  unfold Does at does
  rw [perform_search] at does
  exact does

end MotionRace
