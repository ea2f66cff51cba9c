/-!
# Computations that can be asked to stop

A search asks now and then whether it should stop. `Polling` is a computation with such questions
left open: it is finished, or it asks and goes on from the answer. With each question it shows what
it has in hand at that point. The same computation can be answered all at once (`answers`), or one
question at a time between the steps of other workers.
-/

namespace MotionRace

/-- A computation that asks, finitely often on every path, whether it should stop. What it has in
hand when it asks is of a type `κ`. -/
inductive Polling (κ α : Type) where
  | done (value : α)
  | ask (inHand : κ) (next : Bool → Polling κ α)

namespace Polling

variable {κ α β γ : Type}

/-- Go on from a result. -/
def bind : Polling κ α → (α → Polling κ β) → Polling κ β
  | .done value, f => f value
  | .ask inHand next, f => .ask inHand fun stopped => (next stopped).bind f

instance : Monad (Polling κ) where
  pure := .done
  bind := Polling.bind

/-- Ask once. -/
def shouldStop (inHand : κ) : Polling κ Bool := .ask inHand .done

/-- The result under the answers `stops asked`, `stops (asked + 1)`, …, with the number of the first
question that was not asked. -/
def answers (stops : Nat → Bool) : Polling κ α → (asked : Nat) → α × Nat
  | .done value, asked => (value, asked)
  | .ask _ next, asked => (next (stops asked)).answers stops (asked + 1)

/-- What the computation has in hand at each question that it asks under these answers, in order. -/
def questions (stops : Nat → Bool) : Polling κ α → (asked : Nat) → List κ
  | .done _, _ => []
  | .ask inHand next, asked => inHand :: (next (stops asked)).questions stops (asked + 1)

/-- Answering a computation and what goes on from it is answering one after the other. -/
theorem answers_bind (stops : Nat → Bool) (x : Polling κ α) (f : α → Polling κ β) (asked : Nat) :
    (x.bind f).answers stops asked =
      (f (x.answers stops asked).1).answers stops (x.answers stops asked).2 := by
  induction x generalizing asked with
  | done value => rfl
  | ask inHand next ih => exact ih (stops asked) (asked + 1)

/-- Nothing follows a result that is only handed on. -/
theorem bind_done (x : Polling κ α) : x.bind .done = x := by
  induction x with
  | done value => rfl
  | ask inHand next ih => exact congrArg (ask inHand) (funext ih)

theorem bind_assoc (x : Polling κ α) (f : α → Polling κ β) (g : β → Polling κ γ) :
    (x.bind f).bind g = x.bind fun a => (f a).bind g := by
  induction x with
  | done value => rfl
  | ask inHand next ih => exact congrArg (ask inHand) (funext ih)

end Polling

end MotionRace
