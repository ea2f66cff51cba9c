import Mathlib.Data.List.Basic
import MotionRace.Proofs.Planner.Yields

/-!
# What a search meets

`Search.Meets` says what holds when a search is over under the given answers, also when a panic
ended it. It counts the questions: which one comes next matters to whoever knows what the answers
are. The rules follow the way a search is built. A step that cannot panic is taken by computation,
so its rule is the identity.

The only panic of a draw is the refusal of a range. `Random.drawAll_cases` says when it comes,
whatever the stream.
-/

namespace MotionRace

open MotionRace.Random (WordStream)

/-- Under the answers from number `asked` on, a search ends as described: with a result or a panic,
before a question of a number, and in an arena. -/
def Search.Meets {α : Type} (x : Search α) (stops : Nat → Bool) (asked : Nat) (arena : Arena)
    (post : Except Panic α → Nat → Arena → Prop) : Prop :=
  post ((x arena).answers stops asked).1.1 ((x arena).answers stops asked).2
    ((x arena).answers stops asked).1.2

namespace Search

variable {α β : Type} {x : Search α} {f : α → Search β} {stops : Nat → Bool} {asked : Nat}
  {arena : Arena} {post weaker : Except Panic α → Nat → Arena → Prop}
  {last : Except Panic β → Nat → Arena → Prop}

theorem meets_pure {a : α} (holds : post (.ok a) asked arena) :
    (pure a : Search α).Meets stops asked arena post :=
  holds

/-- A search goes on from a result, and a panic is its last word. -/
theorem meets_bind (first : x.Meets stops asked arena post)
    (goesOn : ∀ a n after, post (.ok a) n after → (f a).Meets stops n after last)
    (panics : ∀ p n after, post (.error p) n after → last (.error p) n after) :
    (x >>= f).Meets stops asked arena last := by
  have parts : (x >>= f) arena = (x arena).bind fun p => ExceptT.bindCont f p.1 p.2 := rfl
  unfold Meets at first ⊢
  rw [parts, Polling.answers_bind]
  rcases found : (x arena).answers stops asked with ⟨⟨p | a, after⟩, n⟩
  · rw [found] at first
    exact panics p n after first
  · rw [found] at first
    exact goesOn a n after first

theorem Meets.mono (meets : x.Meets stops asked arena post)
    (weaken : ∀ result n after, post result n after → weaker result n after) :
    x.Meets stops asked arena weaker :=
  weaken _ _ _ meets

theorem Meets.and {also : Except Panic α → Nat → Arena → Prop}
    (meets : x.Meets stops asked arena post) (too : x.Meets stops asked arena also) :
    x.Meets stops asked arena fun result n after => post result n after ∧ also result n after :=
  ⟨meets, too⟩

/-- A result is as described, whatever the answers were. -/
theorem Yields.meets {holds : α → Arena → Prop} (yields : x.Yields arena holds)
    (meets : x.Meets stops asked arena post) :
    x.Meets stops asked arena fun result n after =>
      post result n after ∧ ∀ a, result = .ok a → holds a after := by
  refine ⟨meets, fun a found => ?_⟩
  exact yields stops asked a _ (Prod.ext found rfl)

/-! ## The steps of a search -/

theorem meets_shouldStop {f : Bool → Search β}
    (goesOn : (f (stops asked)).Meets stops (asked + 1) arena last) :
    (shouldStop >>= f).Meets stops asked arena last :=
  goesOn

/-- A search that returns early when it is asked to stop, and goes on otherwise. -/
theorem meets_unlessStopped {early : α} {rest : Search α}
    (stopped : stops asked = true → post (.ok early) (asked + 1) arena)
    (goesOn : stops asked = false → rest.Meets stops (asked + 1) arena post) :
    (shouldStop >>= fun stopped => if stopped then pure early else rest).Meets stops asked arena
      post := by
  apply meets_shouldStop
  cases answer : stops asked with
  | true => exact meets_pure (stopped answer)
  | false => exact goesOn answer

theorem meets_stateValid {q : Configuration} {f : Bool → Search β}
    (goesOn : (f (arena.checker.accepts (arena.arm.setPositions q))).Meets stops asked
      { arena with
        arm := arena.arm.setPositions q
        checker := { arena.checker with checks := arena.checker.checks + 1 } } last) :
    (stateValid q >>= f).Meets stops asked arena last :=
  goesOn

theorem meets_endEffector {f : Geometry.Point Float → Search β}
    (goesOn : (f arena.arm.endEffector).Meets stops asked arena last) :
    (endEffector >>= f).Meets stops asked arena last :=
  goesOn

theorem meets_dof {f : Nat → Search β} (goesOn : (f arena.arm.dof).Meets stops asked arena last) :
    (dof >>= f).Meets stops asked arena last :=
  goesOn

theorem meets_sample {limits : List (Float × Float)}
    {holds : Except Panic Configuration → Nat → Arena → Prop}
    (drawn : ∀ result stream, Random.drawAll limits arena.stream = (result, stream) →
      holds result asked { arena with stream }) :
    (sample limits).Meets stops asked arena holds :=
  drawn _ _ rfl

end Search

namespace Random

/-- Whether limits leave a choice that no draw can make: their stretched width is too much for a
float. -/
def TooWide (limit : Float × Float) : Prop :=
  limit.1 < limit.2 ∧ (stretchedWidth limit.1 limit.2).isFinite = false

/-- A position is drawn, or its range is too wide and refused. -/
theorem drawWithin_cases (lo hi : Float) (stream : WordStream) :
    (TooWide (lo, hi) ∧ drawWithin lo hi stream = (.error rangeOverflow, stream)) ∨
      ¬ TooWide (lo, hi) ∧ ∃ q after, drawWithin lo hi stream = (.ok q, after) := by
  unfold drawWithin
  split
  next choice =>
    cases finite : (stretchedWidth lo hi).isFinite with
    | true =>
      refine .inr ⟨fun wide => ?_, _, _, if_pos finite⟩
      exact absurd finite (ne_true_of_eq_false wide.2)
    | false => exact .inl ⟨⟨choice, finite⟩, if_neg (ne_true_of_eq_false finite)⟩
  next narrow => exact .inr ⟨fun wide => narrow wide.1, _, _, rfl⟩

/-- A draw is refused exactly when some of the limits are too wide, and says so. -/
theorem drawAll_cases (limits : List (Float × Float)) (stream : WordStream) :
    ((∃ limit ∈ limits, TooWide limit) ∧
        ∃ after, drawAll limits stream = (.error rangeOverflow, after)) ∨
      (¬ ∃ limit ∈ limits, TooWide limit) ∧ ∃ q after, drawAll limits stream = (.ok q, after) := by
  induction limits generalizing stream with
  | nil =>
    refine .inr ⟨?_, [], stream, rfl⟩
    rintro ⟨limit, listed, -⟩
    exact absurd listed List.not_mem_nil
  | cons limit limits ih =>
    obtain ⟨lo, hi⟩ := limit
    rw [List.exists_mem_cons_iff]
    rcases drawWithin_cases lo hi stream with ⟨wide, refused⟩ | ⟨narrow, q, after, drawn⟩
    · refine .inl ⟨.inl wide, stream, ?_⟩
      simp only [drawAll, refused]
    · rcases ih after with ⟨wide, last, refused⟩ | ⟨others, qs, last, rest⟩
      · refine .inl ⟨.inr wide, last, ?_⟩
        simp only [drawAll, drawn, refused]
      · refine .inr ⟨not_or_intro narrow others, q :: qs, last, ?_⟩
        simp only [drawAll, drawn, rest]

end Random

end MotionRace
