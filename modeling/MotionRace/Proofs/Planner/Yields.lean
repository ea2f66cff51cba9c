import MotionRace.Planner.Search

/-!
# What a search comes to

A search asks whether it should stop, may panic and leaves an arena behind. `Search.Yields` says
what holds when it comes to a result, whatever it was answered. There is one rule for each way to
build a search, and one for each of its steps.
-/

namespace MotionRace

open MotionRace.Random (WordStream)

/-- Whatever a search is answered, a result that it comes to from an arena is as described, and so
is the arena that it leaves behind. -/
def Search.Yields {α : Type} (x : Search α) (arena : Arena) (post : α → Arena → Prop) : Prop :=
  ∀ stops asked a after, ((x arena).answers stops asked).1 = (.ok a, after) → post a after

namespace Search

variable {α β : Type} {x : Search α} {f : α → Search β} {arena : Arena} {post : α → Arena → Prop}
  {last : β → Arena → Prop}

theorem yields_pure {a : α} (holds : post a arena) : (pure a : Search α).Yields arena post := by
  intro stops asked found after run
  obtain ⟨same, rfl⟩ := Prod.mk.inj run
  obtain rfl := Except.ok.inj same
  exact holds

theorem yields_bind (first : x.Yields arena fun a after => (f a).Yields after last) :
    (x >>= f).Yields arena last := by
  intro stops asked b after run
  have parts : (x >>= f) arena = (x arena).bind fun p => ExceptT.bindCont f p.1 p.2 := rfl
  rw [parts, Polling.answers_bind] at run
  rcases found : ((x arena).answers stops asked).1 with ⟨panic | a, middle⟩
  · rw [found] at run
    cases (Prod.mk.inj run).1
  · rw [found] at run
    exact first stops asked a middle found stops _ b after run

theorem Yields.mono {weaker : α → Arena → Prop} (yields : x.Yields arena post)
    (weaken : ∀ a after, post a after → weaker a after) : x.Yields arena weaker :=
  fun stops asked a after run => weaken a after (yields stops asked a after run)

/-! ## The steps of a search -/

theorem yields_shouldStop {holds : Bool → Arena → Prop} (either : ∀ stopped, holds stopped arena) :
    shouldStop.Yields arena holds := by
  intro stops asked stopped after run
  obtain ⟨-, rfl⟩ := Prod.mk.inj run
  exact either stopped

/-- A search that returns early when it is asked to stop, and goes on otherwise. -/
theorem yields_unlessStopped {early : α} {rest : Search α} (stops : post early arena)
    (goesOn : rest.Yields arena post) :
    (shouldStop >>= fun stopped => if stopped then pure early else rest).Yields arena post := by
  apply yields_bind
  apply yields_shouldStop
  intro stopped
  cases stopped with
  | true => exact yields_pure stops
  | false => exact goesOn

theorem yields_stateValid {q : Configuration} {holds : Bool → Arena → Prop}
    (checked : holds (arena.checker.accepts (arena.arm.setPositions q))
      { arena with
        arm := arena.arm.setPositions q
        checker := { arena.checker with checks := arena.checker.checks + 1 } }) :
    (stateValid q).Yields arena holds := by
  intro stops asked valid after run
  obtain ⟨same, rfl⟩ := Prod.mk.inj run
  obtain rfl := Except.ok.inj same
  exact checked

theorem yields_endEffector {holds : Geometry.Point Float → Arena → Prop}
    (there : holds arena.arm.endEffector arena) : endEffector.Yields arena holds := by
  intro stops asked p after run
  obtain ⟨same, rfl⟩ := Prod.mk.inj run
  obtain rfl := Except.ok.inj same
  exact there

theorem yields_dof {holds : Nat → Arena → Prop} (there : holds arena.arm.dof arena) :
    dof.Yields arena holds := by
  intro stops asked n after run
  obtain ⟨same, rfl⟩ := Prod.mk.inj run
  obtain rfl := Except.ok.inj same
  exact there

theorem yields_sample {limits : List (Float × Float)} {holds : Configuration → Arena → Prop}
    (drawn : ∀ q stream, Random.drawAll limits arena.stream = (.ok q, stream) →
      holds q { arena with stream }) : (sample limits).Yields arena holds := by
  intro stops asked q after run
  obtain ⟨same, rfl⟩ := Prod.mk.inj run
  exact drawn q _ (Prod.ext same rfl)

end Search

namespace Random

/-- A draw has one position for each pair of limits. -/
theorem length_drawAll {limits : List (Float × Float)} {stream after : WordStream} {q : List Float}
    (drawn : drawAll limits stream = (.ok q, after)) : q.length = limits.length := by
  induction limits generalizing stream after q with
  | nil =>
    cases drawn
    rfl
  | cons limit limits ih =>
    obtain ⟨lo, hi⟩ := limit
    unfold drawAll at drawn
    split at drawn
    next => cases drawn
    next first middle _ =>
      split at drawn
      next => cases drawn
      next qs last rest =>
        cases drawn
        exact congrArg Nat.succ (ih rest)

end Random

end MotionRace
