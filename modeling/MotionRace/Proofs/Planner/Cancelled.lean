import Mathlib.Data.Nat.Find
import MotionRace.Proofs.Planner.Refusals

/-!
# Searches that are asked to stop

A request to stop makes a segment invalid, as an obstacle does, and the search cannot tell which it
was. It asks again before it does anything else, and as a request is not taken back it then gives
up. `Search.Heeds` says this of a part of a search: once it was asked to stop it has one thing left
to return, and its arena stays as it was at that question. A part that follows one which was asked
to stop has to give up at its first question, before it touches the arena (`Search.Quits`).

Main statement: `cancelled_iff_asked_to_stop`.
-/

namespace MotionRace

open MotionRace.Geometry (Region)

/-! ## The first request -/

namespace Polling

variable {κ α β : Type} {stops : Nat → Bool}

/-- What a computation has in hand at the first question that is answered by a request to stop, if
there is one. -/
def stoppedAt? (stops : Nat → Bool) : Polling κ α → (asked : Nat) → Option κ
  | .done _, _ => none
  | .ask inHand next, asked =>
    if stops asked then some inHand else (next (stops asked)).stoppedAt? stops (asked + 1)

/-- The first request comes in the first part of a computation, or else in what follows it. -/
theorem stoppedAt?_bind (x : Polling κ α) (f : α → Polling κ β) (asked : Nat) :
    (x.bind f).stoppedAt? stops asked =
      match x.stoppedAt? stops asked with
      | some inHand => some inHand
      | none =>
        (f (x.answers stops asked).1).stoppedAt? stops (x.answers stops asked).2 := by
  induction x generalizing asked with
  | done value => rfl
  | ask inHand next ih =>
    cases answer : stops asked with
    | true => simp only [bind, stoppedAt?, answer, if_true]
    | false =>
      simp only [bind, stoppedAt?, answers, answer, Bool.false_eq_true, if_false]
      exact ih false (asked + 1)

/-- The first question that is answered by a request is the one before which none was. -/
theorem stoppedAt?_eq_some {x : Polling κ α} {asked k : Nat}
    (inside : k < (x.questions stops asked).length) (stopped : stops (asked + k) = true)
    (first : ∀ j < k, stops (asked + j) = false) :
    x.stoppedAt? stops asked = some (x.questions stops asked)[k] := by
  induction x generalizing asked k with
  | done value => exact absurd inside (Nat.not_lt_zero k)
  | ask inHand next ih =>
    cases k with
    | zero => exact if_pos stopped
    | succ k =>
      have answer : stops asked = false := first 0 k.succ_pos
      simp only [stoppedAt?, answer, Bool.false_eq_true, if_false, questions,
        List.getElem_cons_succ]
      have later (j : Nat) : asked + 1 + j = asked + (j + 1) := by omega
      simp only [questions, answer, List.length_cons, Nat.add_lt_add_iff_right] at inside
      refine ih false inside ((later k).symm ▸ stopped) fun j before => ?_
      rw [later]
      exact first (j + 1) (Nat.succ_lt_succ before)

theorem stoppedAt?_eq_none {x : Polling κ α} {asked : Nat}
    (never : ∀ k < (x.questions stops asked).length, stops (asked + k) = false) :
    x.stoppedAt? stops asked = none := by
  induction x generalizing asked with
  | done value => rfl
  | ask inHand next ih =>
    have answer : stops asked = false := never 0 (Nat.succ_pos _)
    simp only [stoppedAt?, answer, Bool.false_eq_true, if_false]
    simp only [questions, answer, List.length_cons] at never
    refine ih false fun k inside => ?_
    rw [show asked + 1 + k = asked + (k + 1) by omega]
    exact never (k + 1) (Nat.succ_lt_succ inside)

/-- A request that is not taken back is there at every later question. -/
theorem stops_of_stoppedAt? {x : Polling κ α} {asked : Nat} {inHand : κ}
    (steady : Steady stops) (stopped : x.stoppedAt? stops asked = some inHand) :
    stops (x.answers stops asked).2 = true := by
  have later (asked : Nat) : ∀ y : Polling κ α, asked ≤ (y.answers stops asked).2 := by
    intro y
    induction y generalizing asked with
    | done value => exact Nat.le_refl asked
    | ask inHand next ih => exact Nat.le_of_succ_le (ih (stops asked) (asked + 1))
  induction x generalizing asked with
  | done value => cases stopped
  | ask inHand next ih =>
    cases answer : stops asked with
    | true => exact steady.of_le (later asked (.ask inHand next)) answer
    | false =>
      simp only [stoppedAt?, answer, Bool.false_eq_true, if_false] at stopped
      simp only [answers, answer]
      exact ih false stopped

end Polling

/-! ## Heeding a request -/

namespace Search

variable {α β : Type} {stops : Nat → Bool} {early : α} {late : β} {x rest : Search α}
  {f : α → Search β} {clean : Except Panic α → Prop} {last : Except Panic β → Prop}

/-- A search that is asked to stop comes to `early`, with its arena as it was when it was asked. One
that is not comes to what is `clean`. -/
def Heeds (x : Search α) (stops : Nat → Bool) (early : α) (clean : Except Panic α → Prop) : Prop :=
  ∀ asked arena,
    match (x arena).stoppedAt? stops asked with
    | some inHand => ((x arena).answers stops asked).1 = (.ok early, inHand)
    | none => clean ((x arena).answers stops asked).1.1

/-- A search that is asked to stop at its first question, if it has one, comes to `early` and has
left its arena alone. -/
def Quits (x : Search α) (stops : Nat → Bool) (early : α) : Prop :=
  ∀ asked arena, stops asked = true → ((x arena).answers stops asked).1 = (.ok early, arena)

/-- A search that asks nothing. -/
def Quiet (x : Search α) : Prop := ∀ arena, ∃ ended, x arena = .done ended

theorem quits_pure : (pure early : Search α).Quits stops early := fun _ _ _ => rfl

theorem heeds_pure {a : α} (holds : clean (.ok a)) : (pure a : Search α).Heeds stops early clean :=
  fun _ _ => holds

theorem heeds_panic {p : Panic} (holds : clean (.error p)) :
    (panic p : Search α).Heeds stops early clean :=
  fun _ _ => holds

/-- A search that gives up at a question quits there. -/
theorem quits_unlessStopped :
    (shouldStop >>= fun stopped => if stopped then pure early else rest).Quits stops early := by
  intro asked arena stopped
  have asks : (shouldStop >>= fun stopped => if stopped then pure early else rest) arena =
      .ask arena fun stopped => (if stopped then pure early else rest : Search α) arena := rfl
  rw [asks, Polling.answers, stopped]
  rfl

theorem heeds_unlessStopped (goesOn : rest.Heeds stops early clean) :
    (shouldStop >>= fun stopped => if stopped then pure early else rest).Heeds stops early
      clean := by
  intro asked arena
  have asks : (shouldStop >>= fun stopped => if stopped then pure early else rest) arena =
      .ask arena fun stopped => (if stopped then pure early else rest : Search α) arena := rfl
  rw [asks, Polling.stoppedAt?, Polling.answers]
  cases answer : stops asked with
  | true => rfl
  | false => exact goesOn (asked + 1) arena

/-- A part that asks nothing does not stand between a search and a request. -/
theorem heeds_of_quiet (quiet : x.Quiet) (goesOn : ∀ a, (f a).Heeds stops late last)
    (panics : ∀ p, last (.error p)) : (x >>= f).Heeds stops late last := by
  intro asked arena
  have parts : (x >>= f) arena = (x arena).bind fun p => ExceptT.bindCont f p.1 p.2 := rfl
  obtain ⟨⟨p | a, after⟩, ended⟩ := quiet arena
  · rw [parts, ended]
    exact panics p
  · rw [parts, ended]
    exact goesOn a asked after

/-- What follows a part that was asked to stop quits, and otherwise it heeds requests of its own. -/
theorem heeds_bind (steady : Steady stops) (first : x.Heeds stops early clean)
    (quits : (f early).Quits stops late) (goesOn : ∀ a, clean (.ok a) → (f a).Heeds stops late last)
    (panics : ∀ p, last (.error p)) : (x >>= f).Heeds stops late last := by
  intro asked arena
  have parts : (x >>= f) arena = (x arena).bind fun p => ExceptT.bindCont f p.1 p.2 := rfl
  have given := first asked arena
  rw [parts, Polling.stoppedAt?_bind, Polling.answers_bind]
  cases request : (x arena).stoppedAt? stops asked with
  | some inHand =>
    rw [request] at given
    have still := Polling.stops_of_stoppedAt? steady request
    simp only [given]
    exact quits _ inHand still
  | none =>
    rw [request] at given
    rcases found : ((x arena).answers stops asked).1 with ⟨p | a, after⟩
    · exact panics p
    · rw [found] at given
      exact goesOn a given _ after

theorem quiet_stateValid (q : Configuration) : (stateValid q).Quiet := fun _ => ⟨_, rfl⟩

theorem quiet_sample (limits : List (Float × Float)) : (sample limits).Quiet := fun _ => ⟨_, rfl⟩

theorem quiet_endEffector : endEffector.Quiet := fun _ => ⟨_, rfl⟩

theorem quiet_dof : dof.Quiet := fun _ => ⟨_, rfl⟩

end Search

namespace Planner

open Search

variable {stops : Nat → Bool} {p : Planner} {start goal : Configuration}

/-- Whether a search came to anything but that it was cancelled. -/
def NotCancelled (result : Except Panic (Except SolveFailure Trajectory)) : Prop :=
  result ≠ .ok (.error .cancelled)

/-- Whether a search gives up as cancelled when it is asked to stop, and only then. -/
abbrev Cancels (x : Search (Except SolveFailure Trajectory)) (stops : Nat → Bool) : Prop :=
  x.Heeds stops (.error .cancelled) NotCancelled

theorem panic_notCancelled (p : Panic) : NotCancelled (.error p) := nofun

theorem checkStates_heeds (a b : Configuration) (steps left i : Nat) :
    (checkStates a b steps left i).Heeds stops false fun _ => True := by
  induction left generalizing i with
  | zero => exact heeds_pure trivial
  | succ left ih =>
    apply heeds_unlessStopped
    split
    next p _ => exact heeds_panic trivial
    next q _ =>
      refine heeds_of_quiet (quiet_stateValid q) (fun valid => ?_) fun _ => trivial
      cases valid with
      | true => exact ih (i + 1)
      | false => exact heeds_pure trivial

/-- A search that checks a segment heeds a request if it asks again when the segment is invalid. -/
theorem cancels_segment {f : Bool → Search (Except SolveFailure Trajectory)} (steady : Steady stops)
    (resolution : Float) (a b : Configuration) (quits : (f false).Quits stops (.error .cancelled))
    (goesOn : ∀ valid, Cancels (f valid) stops) :
    Cancels (segmentValid resolution a b >>= f) stops :=
  heeds_bind steady (checkStates_heeds a b _ _ 0) quits (fun valid _ => goesOn valid)
    panic_notCancelled

theorem tryVias_quits (left : Nat) :
    (tryVias p start goal left).Quits stops (.error .cancelled) := by
  cases left with
  | zero => exact quits_unlessStopped
  | succ left => exact quits_unlessStopped

theorem tryVias_cancels (steady : Steady stops) (left : Nat) :
    Cancels (tryVias p start goal left) stops := by
  induction left with
  | zero =>
    apply heeds_unlessStopped
    exact heeds_pure nofun
  | succ left ih =>
    apply heeds_unlessStopped
    refine heeds_of_quiet (quiet_sample _) (fun via => ?_) panic_notCancelled
    refine heeds_of_quiet (quiet_stateValid via) (fun valid => ?_) panic_notCancelled
    cases valid with
    | false => exact ih
    | true =>
      refine cancels_segment steady _ start via (tryVias_quits left) fun valid => ?_
      cases valid with
      | false => exact ih
      | true =>
        refine cancels_segment steady _ via goal (tryVias_quits left) fun valid => ?_
        cases valid with
        | false => exact ih
        | true => exact heeds_pure nofun

theorem connect_cancels (steady : Steady stops) : Cancels (connect p start goal) stops := by
  refine cancels_segment steady _ start goal quits_unlessStopped fun valid => ?_
  cases valid with
  | true => exact heeds_pure nofun
  | false =>
    apply heeds_unlessStopped
    exact tryVias_cancels steady _

theorem reachRegion_cancels (steady : Steady stops) (region : Region Float) (left : Nat)
    (found : Bool) : Cancels (reachRegion p start region left found) stops := by
  induction left generalizing found with
  | zero =>
    apply heeds_pure
    cases found <;> exact nofun
  | succ left ih =>
    apply heeds_unlessStopped
    refine heeds_of_quiet (quiet_sample _) (fun q => ?_) panic_notCancelled
    refine heeds_of_quiet (quiet_stateValid q) (fun valid => ?_) panic_notCancelled
    cases valid with
    | false => exact ih found
    | true =>
      refine heeds_of_quiet quiet_endEffector (fun there => ?_) panic_notCancelled
      cases region.contains there with
      | false => exact ih found
      | true =>
        refine heeds_bind steady (connect_cancels steady) quits_pure (fun result calm => ?_)
          panic_notCancelled
        cases result with
        | ok t => exact heeds_pure nofun
        | error reason =>
          cases reason with
          | exhausted => exact ih true
          | cancelled => exact absurd rfl calm
          | _ => exact heeds_pure nofun

theorem search_cancels (steady : Steady stops) (problem : Problem) :
    Cancels (search p problem) stops := by
  refine heeds_of_quiet quiet_dof (fun dof => ?_) panic_notCancelled
  split
  next => exact heeds_pure (by rintro ⟨⟩)
  next =>
    refine heeds_of_quiet (quiet_stateValid _) (fun valid => ?_) panic_notCancelled
    cases valid with
    | false => exact heeds_pure (by rintro ⟨⟩)
    | true =>
      cases problem with
      | toConfiguration start goal =>
        simp only [Bool.not_true, Bool.false_eq_true, if_false]
        split
        next => exact heeds_pure (by rintro ⟨⟩)
        next =>
          refine heeds_of_quiet (quiet_stateValid goal) (fun valid => ?_) panic_notCancelled
          cases valid with
          | false => exact heeds_pure (by rintro ⟨⟩)
          | true =>
            simp only [Bool.not_true, Bool.false_eq_true, if_false]
            split
            next => exact heeds_pure (by rintro ⟨⟩)
            next => exact connect_cancels steady
      | toRegion start region =>
        simp only [Bool.not_true, Bool.false_eq_true, if_false]
        refine heeds_of_quiet quiet_endEffector (fun there => ?_) panic_notCancelled
        split
        next => exact heeds_pure (by rintro ⟨⟩)
        next => exact reachRegion_cancels steady region _ false

end Planner

/-- A solve returns that it was cancelled exactly if a question of it was answered by a request to
stop, and from the first such question on it leaves its arena alone: it makes no check, and it draws
nothing. -/
theorem cancelled_iff_asked_to_stop (p : Planner) (problem : Problem) (arm : Arm)
    (checker : ObstacleChecker) {stops : Nat → Bool} (steady : Steady stops) (asked : Nat) :
    let solve := p.solve problem arm checker
    let questions := solve.questions stops asked
    ((solve.answers stops asked).1.1 = .ok (.error .cancelled) ↔
      ∃ k < questions.length, stops (asked + k) = true) ∧
    ∀ k (inside : k < questions.length), stops (asked + k) = true →
      (∀ j < k, stops (asked + j) = false) → (solve.answers stops asked).1.2 = questions[k] := by
  intro solve questions
  have heeds := Planner.search_cancels (p := p) steady problem asked ⟨arm, checker, p.stream⟩
  change match solve.stoppedAt? stops asked with
    | some inHand => (solve.answers stops asked).1 = (.ok (.error .cancelled), inHand)
    | none => Planner.NotCancelled (solve.answers stops asked).1.1 at heeds
  have first (k : Nat) (inside : k < questions.length) (stopped : stops (asked + k) = true)
      (before : ∀ j < k, stops (asked + j) = false) :
      (solve.answers stops asked).1 = (.ok (.error .cancelled), questions[k]) := by
    rw [Polling.stoppedAt?_eq_some inside stopped before] at heeds
    exact heeds
  refine ⟨⟨fun cancelled => ?_, ?_⟩, fun k inside stopped before => ?_⟩
  · apply Decidable.byContradiction
    intro never
    have calm : solve.stoppedAt? stops asked = none :=
      Polling.stoppedAt?_eq_none fun k inside =>
        Bool.eq_false_iff.mpr fun stopped => never ⟨k, inside, stopped⟩
    rw [calm] at heeds
    exact heeds cancelled
  · intro requested
    have least := Nat.find_spec requested
    have before (j : Nat) (earlier : j < Nat.find requested) : stops (asked + j) = false := by
      refine Bool.eq_false_iff.mpr fun stopped => Nat.find_min requested earlier ⟨?_, stopped⟩
      exact Nat.lt_trans earlier least.1
    rw [first _ least.1 least.2 before]
  · rw [first k inside stopped before]

/-- Requests to stop from the fourth question on. -/
def fromTheFourth (k : Nat) : Bool := 3 ≤ k

theorem stopped_at_the_fourth_question :
    let solve := (eighths.bindTo halfRadian (.ofSeed 7)).solve (.toConfiguration [0] [0.5])
      halfRadian { obstacles := [] }
    (solve.answers fromTheFourth 0).1.1 = .ok (.error .cancelled) ∧
      (∃ inside : 3 < (solve.questions fromTheFourth 0).length,
        (solve.answers fromTheFourth 0).1.2 = (solve.questions fromTheFourth 0)[3]) ∧
      -- The start, the goal and three states along the segment were checked.
      (solve.answers fromTheFourth 0).1.2.checker.checks = 5 := by
  intro solve
  have steady : Steady fromTheFourth := fun n stopped =>
    decide_eq_true (Nat.le_succ_of_le (of_decide_eq_true stopped))
  obtain ⟨cancels, still⟩ := cancelled_iff_asked_to_stop (eighths.bindTo halfRadian (.ofSeed 7))
    (.toConfiguration [0] [0.5]) halfRadian { obstacles := [] } steady 0
  have inside : 3 < (solve.questions fromTheFourth 0).length := by decide +kernel
  refine ⟨cancels.mpr ⟨3, inside, rfl⟩, ⟨inside, ?_⟩, by decide +kernel⟩
  refine still 3 inside rfl fun j before => ?_
  rw [Nat.zero_add]
  exact decide_eq_false (Nat.not_le_of_lt before)

end MotionRace
