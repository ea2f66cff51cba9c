import MotionRace.Planner.Domain
import MotionRace.Proofs.Planner.Draws
import MotionRace.Proofs.Planner.SampleStream

/-!
# Streams of a seed

A planner that is bound with a seed begins at the first word of the stream of that seed, and it goes
on from solve to solve where the last one stopped. A sample takes one word for each joint whose
limits leave a choice, and nothing else takes any. So the samples of all solves of a planner are one
row that the seed and the limits alone decide; what the solves are, and what other planner it was
copied from, decides how many samples are taken.

Main statement: `seeded_histories_agree`.
-/

namespace MotionRace

open MotionRace.Random (WordStream)

namespace Random

/-! ## The words of a sample -/

/-- The stream after so many words. -/
def WordStream.skip (stream : WordStream) : (words : Nat) → WordStream
  | 0 => stream
  | words + 1 => (stream.skip words).next.2

/-- A word of a stream, by its number. -/
def WordStream.wordAt (stream : WordStream) (n : Nat) : UInt64 := (stream.skip n).next.1

/-- How many of the limits leave a choice. -/
def choices (limits : List (Float × Float)) : Nat := limits.countP fun limit => limit.1 < limit.2

/-- The position that a word stands for between two limits. Where they leave no choice it is the
lower one, whatever the word. -/
def positionOf (limit : Float × Float) (word : UInt64) : Float :=
  if limit.1 < limit.2 then
    let scale := shrinkScale limit.1 limit.2 (stretchedWidth limit.1 limit.2).toBits.toNat
    share word * scale + limit.1
  else limit.1

/-- The configuration that stands for the words of a stream from number `first` on. -/
def fromWords (limits : List (Float × Float)) (stream : WordStream) (first : Nat) :
    Configuration :=
  limits.mapIdx fun i limit =>
    positionOf limit (stream.wordAt (first + choices (limits.take i)))

variable {lo hi : Float} {limit : Float × Float} {limits : List (Float × Float)}

theorem choices_cons (limit : Float × Float) (limits : List (Float × Float)) :
    choices (limit :: limits) = choices [limit] + choices limits := by
  show choices ([limit] ++ limits) = _
  exact List.countP_append

theorem choices_take_succ {i : Nat} (listed : limits[i]? = some limit) :
    choices (limits.take (i + 1)) = choices (limits.take i) + choices [limit] := by
  rw [List.take_add_one, listed]
  exact List.countP_append

theorem choices_of_lt (choice : lo < hi) : choices [(lo, hi)] = 1 :=
  List.countP_cons_of_pos (decide_eq_true choice)

theorem choices_of_not_lt (noChoice : ¬ lo < hi) : choices [(lo, hi)] = 0 :=
  List.countP_cons_of_neg (mt of_decide_eq_true noChoice)

/-- Equal limits leave no choice. -/
theorem not_lt_of_beq (same : (lo == hi) = true) : ¬ lo < hi := by
  intro less
  have eq : lo.toModel.unpack.compare hi.toModel.unpack = some .eq := eq_of_beq same
  have ordered : lo.toModel < hi.toModel := of_decide_eq_true less
  have lt : lo.toModel.unpack.compare hi.toModel.unpack = some .lt := eq_of_beq ordered
  cases eq.symm.trans lt

/-- A position takes one word if there is a choice. -/
theorem drawWithin_eq (narrow : ¬ TooWide (lo, hi)) (stream : WordStream) (first : Nat) :
    drawWithin lo hi (stream.skip first) =
      (.ok (positionOf (lo, hi) (stream.wordAt first)),
        stream.skip (first + choices [(lo, hi)])) := by
  unfold drawWithin positionOf
  by_cases choice : lo < hi
  · have finite : (stretchedWidth lo hi).isFinite = true := by
      by_contra wide
      exact narrow ⟨choice, eq_false_of_ne_true wide⟩
    rw [if_pos choice, if_pos choice, choices_of_lt choice]
    exact if_pos finite
  · rw [if_neg choice, if_neg choice, choices_of_not_lt choice, Nat.add_zero]

theorem fromWords_cons (stream : WordStream) (first : Nat) :
    fromWords (limit :: limits) stream first =
      positionOf limit (stream.wordAt first) ::
        fromWords limits stream (first + choices [limit]) := by
  unfold fromWords
  rw [List.mapIdx_cons]
  simp only [List.take_succ_cons, choices_cons limit (List.take _ _), Nat.add_assoc]
  rfl

/-- A draw takes one word for each choice. -/
theorem drawAll_eq (narrow : ¬ ∃ limit ∈ limits, TooWide limit) (stream : WordStream)
    (first : Nat) : drawAll limits (stream.skip first) =
      (.ok (fromWords limits stream first), stream.skip (first + choices limits)) := by
  induction limits generalizing first with
  | nil => rfl
  | cons limit limits ih =>
    obtain ⟨lo, hi⟩ := limit
    rw [List.exists_mem_cons_iff, not_or] at narrow
    simp only [drawAll]
    rw [drawWithin_eq narrow.1]
    simp only
    rw [ih narrow.2, fromWords_cons, choices_cons _ limits, Nat.add_assoc]

/-- Configurations that are taken from a stream one after the other, beginning at a word, and the
stream after them. -/
structure Takes (limits : List (Float × Float)) (stream : WordStream) (first : Nat)
    (drawn : List Configuration) (after : WordStream) : Prop where
  drawn_eq : ∀ k q, drawn[k]? = some q →
    q = fromWords limits stream (first + k * choices limits)
  after_eq : after = stream.skip (first + drawn.length * choices limits)

section Takes

variable {stream after : WordStream} {first : Nat} {drawn later : List Configuration}

theorem takes_nothing (still : after = stream.skip first) : Takes limits stream first [] after where
  drawn_eq := fun _ _ => nofun
  after_eq := by rw [List.length_nil, Nat.zero_mul, Nat.add_zero, still]

/-- One configuration, and what is taken after it. -/
theorem Takes.cons (takes : Takes limits stream (first + choices limits) drawn after) :
    Takes limits stream first (fromWords limits stream first :: drawn) after := by
  have shift (k : Nat) :
      first + (k + 1) * choices limits = first + choices limits + k * choices limits := by
    rw [Nat.succ_mul]
    omega
  constructor
  · intro k q drew
    cases k with
    | zero =>
      cases drew
      rw [Nat.zero_mul, Nat.add_zero]
    | succ k =>
      rw [shift]
      exact takes.drawn_eq k q drew
  · rw [List.length_cons, shift]
    exact takes.after_eq

theorem Takes.append (takes : Takes limits stream first drawn stream')
    (goesOn : Takes limits stream (first + drawn.length * choices limits) later after) :
    Takes limits stream first (drawn ++ later) after := by
  have shift (k : Nat) : first + (drawn.length + k) * choices limits =
      first + drawn.length * choices limits + k * choices limits := by
    rw [Nat.add_mul, Nat.add_assoc]
  constructor
  · intro k q drew
    rw [List.getElem?_append] at drew
    split at drew
    next within => exact takes.drawn_eq k q drew
    next beyond =>
      obtain ⟨i, rfl⟩ := Nat.exists_eq_add_of_le (Nat.le_of_not_lt beyond)
      rw [Nat.add_sub_cancel_left] at drew
      rw [shift]
      exact goesOn.drawn_eq i q drew
  · rw [List.length_append, shift]
    exact goesOn.after_eq

end Takes

end Random

open MotionRace.Random (Takes takes_nothing choices positionOf fromWords)

/-- Whatever a course does, its draws are taken from the stream one after the other, and nothing
else is. -/
theorem Course.does_takes {α : Type} {limits : List (Float × Float)} {stops : Nat → Bool}
    (narrow : ¬ ∃ limit ∈ limits, Random.TooWide limit) (origin : WordStream) (c : Course α)
    (asked first : Nat) (arena : Arena) (on : arena.stream = origin.skip first) :
    c.Does limits stops asked arena fun events _ _ after =>
      Takes limits origin first (samples events) after.stream := by
  induction c generalizing asked first arena with
  | done value => exact takes_nothing on
  | panics p => exact takes_nothing on
  | asks next ih => exact does_asks (ih _ (asked + 1) first arena on)
  | checks q next ih => exact does_checks (ih _ asked first _ on)
  | looks next ih => exact does_looks (ih _ asked first arena on)
  | counts next ih => exact does_counts (ih _ asked first arena on)
  | draws next ih =>
    have drawn := Random.drawAll_eq narrow origin first
    rw [← on] at drawn
    apply does_draws
    · intro p stream refused
      cases drawn.symm.trans refused
    · intro q stream drew
      cases drawn.symm.trans drew
      refine (ih _ asked _ { arena with stream := origin.skip _ } rfl).mono ?_
      intro _ n after takes
      exact takes.cons

/-! ## Histories of solves -/

/-- What a planner is given to solve: a problem, a scratch arm and a checker, and the answers to its
questions whether to stop. -/
structure Job where
  problem : Problem
  arm : Arm
  checker : ObstacleChecker
  stops : Nat → Bool

namespace Planner

/-- What a planner does on a job. -/
def doing (p : Planner) (job : Job) : List Course.Event :=
  p.events job.problem job.arm job.checker job.stops 0

/-- The samples that a planner takes on a job. -/
def samples (p : Planner) (job : Job) : List Configuration := Course.samples (p.doing job)

/-- What a planner comes to on a job. -/
def solved (p : Planner) (job : Job) : Solved :=
  ((p.solve job.problem job.arm job.checker).answers job.stops 0).1

/-- The planner after a job. -/
def after (p : Planner) (job : Job) : Planner :=
  { p with stream := (p.solved job).2.stream }

/-- The planner after one job after the other. -/
def afterAll (p : Planner) (history : List Job) : Planner := history.foldl after p

/-- The samples that a planner takes on one job after the other. -/
def samplesOver : Planner → (history : List Job) → List Configuration
  | _, [] => []
  | p, job :: later => p.samples job ++ (p.after job).samplesOver later

variable {p : Planner} {origin : WordStream} {first : Nat}

theorem limits_afterAll (p : Planner) (history : List Job) :
    (p.afterAll history).limits = p.limits := by
  induction history generalizing p with
  | nil => rfl
  | cons job later ih => exact ih (p.after job)

/-- What a job takes from the stream. -/
theorem takes_on (narrow : ¬ ∃ limit ∈ p.limits, Random.TooWide limit)
    (on : p.stream = origin.skip first) (job : Job) :
    Takes p.limits origin first (p.samples job) (p.after job).stream := by
  have does : (Course.search p.settings job.problem).Does p.limits job.stops 0
      ⟨job.arm, job.checker, p.stream⟩ _ :=
    Course.does_takes narrow origin _ 0 first _ on
  exact does.solve

/-- What a history takes from the stream: each job goes on where the last one stopped. -/
theorem takes_over (narrow : ¬ ∃ limit ∈ p.limits, Random.TooWide limit)
    (on : p.stream = origin.skip first) (history : List Job) :
    Takes p.limits origin first (p.samplesOver history) (p.afterAll history).stream := by
  induction history generalizing p first with
  | nil => exact takes_nothing on
  | cons job later ih =>
    have takes := takes_on narrow on job
    have goesOn : Takes p.limits origin _ _ _ := ih (p := p.after job) narrow takes.after_eq
    exact takes.append goesOn

/-- A job that takes no samples leaves the planner as it was. -/
theorem after_of_unsampled (narrow : ¬ ∃ limit ∈ p.limits, Random.TooWide limit) {job : Job}
    (unsampled : p.samples job = []) : p.after job = p := by
  have takes : Takes p.limits p.stream 0 _ _ := takes_on narrow rfl job
  have same : (p.after job).stream = p.stream := by
    rw [takes.after_eq, unsampled, List.length_nil, Nat.zero_mul]
    rfl
  exact congrArg (fun stream => { p with stream }) same

/-- A job that ends with a result from before the first draw takes no samples. -/
theorem samples_of_immediate {job : Job} {result : Except SolveFailure Trajectory}
    (ended : (p.solved job).1 = .ok result) (early : Course.Immediate job.problem result) :
    p.samples job = [] := by
  have does : (Course.search p.settings job.problem).Does p.limits job.stops 0
      ⟨job.arm, job.checker, p.stream⟩ _ :=
    Course.does_endsDrawn (Course.endsDrawn_search job.problem) 0 _
  by_contra drew
  exact does.solve result ended drew early

/-- A job that is stopped before its first sample takes none. -/
theorem samples_of_stopped {job : Job} (steady : Steady job.stops)
    {before later : List Course.Event} (done : p.doing job = before ++ .asked true :: later)
    (unsampled : Course.samples before = []) : p.samples job = [] :=
  Course.samples_of_stopped steady (Course.careful_search job.problem) done unsampled

end Planner

/-- Planners that are bound with one seed to arms of the same limits take the same samples, whatever
they were copied from and whatever they are given to solve: where both take a sample of some number
it is the same. The sample stands for the words of the seed's stream that are its own, one for each
joint with a choice, in order, and none for a joint with equal limits. A solve that takes no sample
leaves the planner as it was: so does one that turns the start or the goal configuration away, that
finds a plan of one point, or a straight plan to a goal configuration, and one that is asked to stop
before its first sample. -/
theorem seeded_histories_agree (template other : Planner) {arm twin : Arm}
    (same : twin.limits = arm.limits) (narrow : ¬ arm.TooWide) (seed : UInt64)
    (source shared : WordStream) :
    let one := (template.bindSeeded arm (some seed) source).1
    let two := (other.bindSeeded twin (some seed) shared).1
    let words := choices arm.limits
    -- Where both take a sample of some number.
    (∀ (history others : List Job) (k : Nat) (q r : Configuration),
      (one.samplesOver history)[k]? = some q → (two.samplesOver others)[k]? = some r → q = r) ∧
    -- The words of a sample.
    (∀ history : List Job,
      (∀ (k : Nat) (q : Configuration), (one.samplesOver history)[k]? = some q →
        q = fromWords arm.limits (.ofSeed seed) (k * words)) ∧
      (one.afterAll history).stream =
        (WordStream.ofSeed seed).skip ((one.samplesOver history).length * words)) ∧
    -- The words of a joint.
    (∀ (i : Nat) (limit : Float × Float), arm.limits[i]? = some limit →
      (limit.1 < limit.2 →
        choices (arm.limits.take (i + 1)) = choices (arm.limits.take i) + 1) ∧
      ((limit.1 == limit.2) = true →
        choices (arm.limits.take (i + 1)) = choices (arm.limits.take i) ∧
        ∀ word, positionOf limit word = limit.1)) ∧
    -- A solve without a sample.
    ∀ history job,
      let now := one.afterAll history
      (now.samples job = [] → now.after job = now) ∧
      (∀ result, (now.solved job).1 = .ok result → Course.Immediate job.problem result →
        now.samples job = []) ∧
      (Steady job.stops → ∀ before later, now.doing job = before ++ .asked true :: later →
        Course.samples before = [] → now.samples job = []) := by
  intro one two words
  have takes (history : List Job) :
      Takes arm.limits (.ofSeed seed) 0 (one.samplesOver history) (one.afterAll history).stream :=
    Planner.takes_over (p := one) narrow rfl history
  have alsoNarrow : ¬ ∃ limit ∈ twin.limits, Random.TooWide limit := by
    rw [same]
    exact narrow
  have also (others : List Job) :
      Takes arm.limits (.ofSeed seed) 0 (two.samplesOver others) (two.afterAll others).stream := by
    rw [← same]
    exact Planner.takes_over (p := two) alsoNarrow rfl others
  refine ⟨?agree, ?words, ?joints, ?undrawn⟩
  case agree =>
    intro history others k q r drawn drew
    rw [(takes history).drawn_eq k q drawn, (also others).drawn_eq k r drew]
  case words =>
    intro history
    have taken := takes history
    refine ⟨fun k q drawn => ?_, ?_⟩
    · rw [taken.drawn_eq k q drawn, Nat.zero_add]
    · rw [taken.after_eq, Nat.zero_add]
  case joints =>
    intro i limit listed
    obtain ⟨lo, hi⟩ := limit
    rw [Random.choices_take_succ listed]
    constructor
    · intro choice
      rw [Random.choices_of_lt choice]
    · intro equal
      have noChoice : ¬ lo < hi := Random.not_lt_of_beq equal
      rw [Random.choices_of_not_lt noChoice, Nat.add_zero]
      exact ⟨rfl, fun _ => if_neg noChoice⟩
  case undrawn =>
    intro history job now
    have still : ¬ ∃ limit ∈ now.limits, Random.TooWide limit := by
      rw [Planner.limits_afterAll]
      exact narrow
    exact ⟨Planner.after_of_unsampled still,
      fun result ended early => Planner.samples_of_immediate ended early,
      fun steady before later done unsampled => Planner.samples_of_stopped steady done unsampled⟩

/-- The second sample of two planners. The straight plan in between takes none; the other plans take
one each, since `0.3 + (0.9 - 0.3)` is rounded to more than `0.9`. -/
theorem second_samples_of_seed_seven :
    let twin : Arm := { nineTenths with name := "twin" }
    let quarters : Planner := .ofSettings { resolution := 0.25 } (.ofSeed 5)
    let one := (eighths.bindSeeded nineTenths (some 7) (.ofSeed 1)).1
    let two := (quarters.bindSeeded twin (some 7) (.ofSeed 2)).1
    let blocked : Job :=
      ⟨.toConfiguration [0.3] [0.9], nineTenths, { obstacles := [] }, fun _ => false⟩
    let free : Job := ⟨.toConfiguration [0] [0.5], twin, { obstacles := [] }, fun _ => false⟩
    twin.limits = nineTenths.limits ∧ ¬ nineTenths.TooWide ∧
    (one.samplesOver [blocked, blocked]).length = 2 ∧
    (two.samplesOver [blocked, free, blocked]).length = 2 ∧
    (one.samplesOver [blocked, blocked])[1]? = (two.samplesOver [blocked, free, blocked])[1]? := by
  intro twin quarters one two blocked free
  have narrow : ¬ nineTenths.TooWide := by decide +kernel
  have taken : (one.samplesOver [blocked, blocked]).length = 2 := by decide +kernel
  have also : (two.samplesOver [blocked, free, blocked]).length = 2 := by decide +kernel
  have drawn := List.getElem?_eq_getElem (taken ▸ Nat.one_lt_two)
  have drew := List.getElem?_eq_getElem (also ▸ Nat.one_lt_two)
  have same : twin.limits = nineTenths.limits := rfl
  have agree := (seeded_histories_agree eighths quarters same narrow 7 (.ofSeed 1) (.ofSeed 2)).1
    _ _ 1 _ _ drawn drew
  exact ⟨same, narrow, taken, also, drawn.trans ((congrArg some agree).trans drew.symm)⟩

end MotionRace
