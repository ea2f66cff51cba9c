import MotionRace.Proofs.Planner.Cancelled
import MotionRace.Proofs.Planner.Courses

/-!
# When a search draws

What a search comes to tells whether it has drawn: an invalid start, an invalid goal configuration,
a plan of one point and a straight plan between two configurations are found without a draw. Such
facts are read off the course alone, over all that the search could find on its way
(`Course.EndsDrawn`).

A draw follows at once on a question that was not answered by a request to stop (`Course.Careful`).
So nothing is drawn any more once the search was asked to stop.

Main statements: `Course.does_endsDrawn` and `Course.samples_of_stopped`, with
`Course.endsDrawn_search` and `Course.careful_search` for the searches.
-/

namespace MotionRace

open MotionRace.Geometry (Region)

namespace Course

variable {α β : Type}

/-- The configurations that are drawn, in order. -/
def samples (events : List Event) : List Configuration := events.filterMap Event.drawn?

/-! ## What is read off a course -/

/-- Whether all that a course can come to is good, whatever is found on the way. -/
def Ends (good : α → Prop) : Course α → Prop
  | .done value => good value
  | .panics _ => True
  | .asks next => ∀ stopped, (next stopped).Ends good
  | .checks _ next => ∀ valid, (next valid).Ends good
  | .looks next => ∀ there, (next there).Ends good
  | .counts next => ∀ dof, (next dof).Ends good
  | .draws next => ∀ q, (next q).Ends good

/-- Whether a course never draws. -/
def Undrawn : Course α → Prop
  | .done _ => True
  | .panics _ => True
  | .asks next => ∀ stopped, (next stopped).Undrawn
  | .checks _ next => ∀ valid, (next valid).Undrawn
  | .looks next => ∀ there, (next there).Undrawn
  | .counts next => ∀ dof, (next dof).Undrawn
  | .draws _ => False

/-- Whether all that a course can come to after a draw is good. -/
def EndsDrawn (good : α → Prop) : Course α → Prop
  | .done _ => True
  | .panics _ => True
  | .asks next => ∀ stopped, (next stopped).EndsDrawn good
  | .checks _ next => ∀ valid, (next valid).EndsDrawn good
  | .looks next => ∀ there, (next there).EndsDrawn good
  | .counts next => ∀ dof, (next dof).EndsDrawn good
  | .draws next => ∀ q, (next q).Ends good

/-- Whether a course draws at once after a question that was not answered by a request to stop, and
never else. It `may` draw first if it follows on such a question. -/
def Careful : (may : Bool) → Course α → Prop
  | _, .done _ => True
  | _, .panics _ => True
  | _, .asks next => (next true).Careful false ∧ (next false).Careful true
  | _, .checks _ next => ∀ valid, (next valid).Careful false
  | _, .looks next => ∀ there, (next there).Careful false
  | _, .counts next => ∀ dof, (next dof).Careful false
  | may, .draws next => may = true ∧ ∀ q, (next q).Careful false

section Rules

variable {good : α → Prop} {also : β → Prop} {x : Course α} {f : α → Course β} {early : α}
  {rest : Course α}

theorem ends_bind (first : x.Ends good) (goesOn : ∀ a, good a → (f a).Ends also) :
    (x >>= f).Ends also := by
  induction x with
  | done value => exact goesOn value first
  | panics p => trivial
  | asks next ih => exact fun stopped => ih stopped (first stopped)
  | checks q next ih => exact fun valid => ih valid (first valid)
  | looks next ih => exact fun there => ih there (first there)
  | counts next ih => exact fun dof => ih dof (first dof)
  | draws next ih => exact fun q => ih q (first q)

/-- What follows a part, whatever that comes to. -/
theorem ends_after (goesOn : ∀ a, (f a).Ends also) : (x >>= f).Ends also := by
  induction x with
  | done value => exact goesOn value
  | panics p => trivial
  | asks next ih => exact ih
  | checks q next ih => exact ih
  | looks next ih => exact ih
  | counts next ih => exact ih
  | draws next ih => exact ih

theorem ends_unlessStopped (stops : good early) (goesOn : rest.Ends good) :
    (shouldStop >>= fun stopped => if stopped then pure early else rest).Ends good := by
  intro stopped
  cases stopped with
  | true => exact stops
  | false => exact goesOn

theorem Ends.drawn (ends : x.Ends good) : x.EndsDrawn good := by
  induction x with
  | done value => trivial
  | panics p => trivial
  | asks next ih => exact fun stopped => ih stopped (ends stopped)
  | checks q next ih => exact fun valid => ih valid (ends valid)
  | looks next ih => exact fun there => ih there (ends there)
  | counts next ih => exact fun dof => ih dof (ends dof)
  | draws next ih => exact ends

theorem undrawn_unlessStopped (goesOn : rest.Undrawn) :
    (shouldStop >>= fun stopped => if stopped then pure early else rest).Undrawn := by
  intro stopped
  cases stopped with
  | true => trivial
  | false => exact goesOn

/-- What follows a part that draws nothing. -/
theorem endsDrawn_bind (undrawn : x.Undrawn) (goesOn : ∀ a, (f a).EndsDrawn also) :
    (x >>= f).EndsDrawn also := by
  induction x with
  | done value => exact goesOn value
  | panics p => trivial
  | asks next ih => exact fun stopped => ih stopped (undrawn stopped)
  | checks q next ih => exact fun valid => ih valid (undrawn valid)
  | looks next ih => exact fun there => ih there (undrawn there)
  | counts next ih => exact fun dof => ih dof (undrawn dof)
  | draws next ih => exact undrawn.elim

theorem Careful.mono (careful : x.Careful false) (may : Bool) : x.Careful may := by
  cases x with
  | draws next => cases careful.1
  | _ => exact careful

theorem Undrawn.careful (undrawn : x.Undrawn) : x.Careful false := by
  induction x with
  | done value => trivial
  | panics p => trivial
  | asks next ih => exact ⟨ih true (undrawn true), (ih false (undrawn false)).mono true⟩
  | checks q next ih => exact fun valid => ih valid (undrawn valid)
  | looks next ih => exact fun there => ih there (undrawn there)
  | counts next ih => exact fun dof => ih dof (undrawn dof)
  | draws next ih => exact undrawn.elim

theorem careful_bind {may : Bool} (first : x.Careful may) (goesOn : ∀ a, (f a).Careful false) :
    (x >>= f).Careful may := by
  induction x generalizing may with
  | done value => exact (goesOn value).mono may
  | panics p => trivial
  | asks next ih => exact ⟨ih true first.1, ih false first.2⟩
  | checks q next ih => exact fun valid => ih valid (first valid)
  | looks next ih => exact fun there => ih there (first there)
  | counts next ih => exact fun dof => ih dof (first dof)
  | draws next ih => exact ⟨first.1, fun q => ih q (first.2 q)⟩

theorem careful_sample {f : Configuration → Course β} (goesOn : ∀ q, (f q).Careful false) :
    (sample >>= f).Careful true :=
  ⟨rfl, goesOn⟩

theorem careful_unlessStopped (goesOn : rest.Careful true) :
    (shouldStop >>= fun stopped => if stopped then pure early else rest).Careful false :=
  ⟨trivial, goesOn⟩

end Rules

/-! ## What follows for what is done -/

section Sound

variable {limits : List (Float × Float)} {stops : Nat → Bool} {good : α → Prop} {c : Course α}

theorem does_ends (ends : c.Ends good) (asked : Nat) (arena : Arena) :
    c.Does limits stops asked arena fun _ result _ _ => ∀ a, result = .ok a → good a := by
  induction c generalizing asked arena with
  | done value =>
    intro a same
    exact Except.ok.inj same ▸ ends
  | panics p => exact nofun
  | asks next ih => exact does_asks (ih _ (ends _) (asked + 1) arena)
  | checks q next ih => exact does_checks (ih _ (ends _) asked _)
  | looks next ih => exact does_looks (ih _ (ends _) asked arena)
  | counts next ih => exact does_counts (ih _ (ends _) asked arena)
  | draws next ih =>
    apply does_draws
    · exact fun p stream _ => nofun
    · exact fun q stream _ => ih q (ends q) asked { arena with stream }

/-- A course that has drawn has come to something good. -/
theorem does_endsDrawn (ends : c.EndsDrawn good) (asked : Nat) (arena : Arena) :
    c.Does limits stops asked arena fun events result _ _ =>
      ∀ a, result = .ok a → samples events ≠ [] → good a := by
  induction c generalizing asked arena with
  | done value => exact fun _ _ drew => absurd rfl drew
  | panics p => exact nofun
  | asks next ih => exact does_asks (ih _ (ends _) (asked + 1) arena)
  | checks q next ih => exact does_checks (ih _ (ends _) asked _)
  | looks next ih => exact does_looks (ih _ (ends _) asked arena)
  | counts next ih => exact does_counts (ih _ (ends _) asked arena)
  | draws next _ =>
    apply does_draws
    · exact fun p stream _ => nofun
    · intro q stream _
      refine (does_ends (ends q) asked { arena with stream }).mono ?_
      intro result n after found a same _
      exact found a same

/-- A course that was asked to stop draws nothing any more. -/
theorem samples_of_careful (steady : Steady stops) (careful : c.Careful false) (asked : Nat)
    (stopped : stops asked = true) (arena : Arena) :
    samples (c.events limits stops asked arena) = [] := by
  induction c generalizing asked arena with
  | done value => rfl
  | panics p => rfl
  | asks next ih =>
    show samples ((next (stops asked)).events limits stops (asked + 1) arena) = []
    rw [stopped]
    exact ih true careful.1 (asked + 1) (steady asked stopped) arena
  | checks q next ih => exact ih _ (careful _) asked stopped _
  | looks next ih => exact ih _ (careful _) asked stopped arena
  | counts next ih => exact ih _ (careful _) asked stopped arena
  | draws next ih => cases careful.1

theorem Careful.next {next : Bool → Course α} (careful : (asks next).Careful false)
    (stopped : Bool) : ∃ may, (next stopped).Careful may := by
  cases stopped with
  | true => exact ⟨false, careful.1⟩
  | false => exact ⟨true, careful.2⟩

/-- A course that was asked to stop before its first draw draws nothing. -/
theorem samples_of_stopped (steady : Steady stops) {may : Bool} (careful : c.Careful may)
    {asked : Nat} {arena : Arena} {before after : List Event}
    (done : c.events limits stops asked arena = before ++ .asked true :: after)
    (unsampled : samples before = []) : samples (c.events limits stops asked arena) = [] := by
  induction c generalizing may asked arena before with
  | done value => rfl
  | panics p => rfl
  | asks next ih =>
    show samples ((next (stops asked)).events limits stops (asked + 1) arena) = []
    cases before with
    | nil =>
      have stopped : stops asked = true := Event.asked.inj (List.cons.inj done).1
      rw [stopped]
      exact samples_of_careful steady careful.1 (asked + 1) (steady asked stopped) arena
    | cons event before =>
      obtain ⟨rfl, later⟩ := List.cons.inj done
      obtain ⟨may, careful⟩ := Careful.next careful (stops asked)
      exact ih _ careful later unsampled
  | checks q next ih =>
    show samples ((next _).events limits stops asked _) = []
    cases before with
    | nil => cases (List.cons.inj done).1
    | cons event before =>
      obtain ⟨rfl, later⟩ := List.cons.inj done
      exact ih _ (careful _) later unsampled
  | looks next ih => exact ih _ (careful _) done unsampled
  | counts next ih => exact ih _ (careful _) done unsampled
  | draws next ih =>
    unfold events at done ⊢
    split at done
    next => rfl
    next q stream _ =>
      -- The draw comes before the request, or it is the first thing that is done.
      cases before with
      | nil => cases (List.cons.inj done).1
      | cons event before =>
        obtain ⟨rfl, -⟩ := List.cons.inj done
        cases unsampled

end Sound

/-! ## The searches -/

/-- Results that a search comes to before its first draw. That there is no goal in a region is not
one of them: it takes draws to find out. -/
inductive Immediate : Problem → Except SolveFailure Trajectory → Prop where
  | badStart (problem : Problem) : Immediate problem (.error .invalidStart)
  | badGoal (start goal : Configuration) :
    Immediate (.toConfiguration start goal) (.error .invalidGoal)
  | there (problem : Problem) (q : Configuration) : Immediate problem (.ok ⟨[q]⟩)
  | straight (start goal a b : Configuration) :
    Immediate (.toConfiguration start goal) (.ok ⟨[a, b]⟩)

section Search

variable {s : Settings} {start goal : Configuration} {region : Region Float}

theorem undrawn_stateValid (q : Configuration) : (stateValid q).Undrawn := fun _ => trivial

theorem undrawn_endEffector : endEffector.Undrawn := fun _ => trivial

theorem undrawn_dof : dof.Undrawn := fun _ => trivial

theorem undrawn_checkStates (a b : Configuration) (steps left i : Nat) :
    (checkStates a b steps left i).Undrawn := by
  induction left generalizing i with
  | zero => trivial
  | succ left ih =>
    apply undrawn_unlessStopped
    cases interpolate a b (shareOf i steps) with
    | error p => trivial
    | ok q =>
      intro valid
      cases valid with
      | true => exact ih (i + 1)
      | false => trivial

theorem undrawn_segmentValid (resolution : Float) (a b : Configuration) :
    (segmentValid resolution a b).Undrawn :=
  undrawn_checkStates a b _ _ 0

theorem ends_tryVias {problem : Problem} (left : Nat) :
    (tryVias s start goal left).Ends fun result => ¬ Immediate problem result := by
  induction left with
  | zero =>
    apply ends_unlessStopped
    · exact nofun
    · exact nofun
  | succ left ih =>
    apply ends_unlessStopped
    · exact nofun
    · refine ends_after ?_
      intro via
      refine ends_after ?_
      intro valid
      cases valid with
      | false => exact ih
      | true =>
        refine ends_after ?_
        intro first
        cases first with
        | false => exact ih
        | true =>
          refine ends_after ?_
          intro second
          cases second with
          | false => exact ih
          | true => exact nofun

theorem careful_tryVias (left : Nat) : (tryVias s start goal left).Careful false := by
  induction left with
  | zero => exact careful_unlessStopped trivial
  | succ left ih =>
    apply careful_unlessStopped
    refine careful_sample ?_
    intro via
    refine careful_bind (undrawn_stateValid via).careful ?_
    intro valid
    cases valid with
    | false => exact ih
    | true =>
      refine careful_bind (undrawn_segmentValid _ start via).careful ?_
      intro first
      cases first with
      | false => exact ih
      | true =>
        refine careful_bind (undrawn_segmentValid _ via goal).careful ?_
        intro second
        cases second with
        | false => exact ih
        | true => trivial

theorem endsDrawn_connect {problem : Problem} :
    (connect s start goal).EndsDrawn fun result => ¬ Immediate problem result := by
  refine endsDrawn_bind (undrawn_segmentValid _ start goal) ?_
  intro straight
  cases straight with
  | true => trivial
  | false =>
    apply Ends.drawn
    apply ends_unlessStopped
    · exact nofun
    · exact ends_tryVias _

theorem careful_connect : (connect s start goal).Careful false := by
  refine careful_bind (undrawn_segmentValid _ start goal).careful ?_
  intro straight
  cases straight with
  | true => trivial
  | false => exact careful_unlessStopped ((careful_tryVias _).mono true)

/-- A search for a region can end with a straight segment after a draw, but not with less. -/
theorem ends_connect (region : Region Float) :
    (connect s start goal).Ends fun result => ¬ Immediate (.toRegion start region) result := by
  refine ends_after ?_
  intro straight
  cases straight with
  | true => exact nofun
  | false =>
    apply ends_unlessStopped
    · exact nofun
    · exact ends_tryVias _

theorem ends_reachRegion (left : Nat) (found : Bool) :
    (reachRegion s start region left found).Ends fun result =>
      ¬ Immediate (.toRegion start region) result := by
  induction left generalizing found with
  | zero =>
    cases found with
    | true => exact nofun
    | false => exact nofun
  | succ left ih =>
    apply ends_unlessStopped
    · exact nofun
    · refine ends_after ?_
      intro q
      refine ends_after ?_
      intro valid
      cases valid with
      | false => exact ih found
      | true =>
        refine ends_after ?_
        intro there
        cases region.contains there with
        | false => exact ih found
        | true =>
          refine ends_bind (ends_connect region) ?_
          intro result late
          cases result with
          | ok t => exact late
          | error reason =>
            cases reason with
            | exhausted => exact ih true
            | _ => exact late

theorem careful_reachRegion (left : Nat) (found : Bool) :
    (reachRegion s start region left found).Careful false := by
  induction left generalizing found with
  | zero => trivial
  | succ left ih =>
    apply careful_unlessStopped
    refine careful_sample ?_
    intro q
    refine careful_bind (undrawn_stateValid q).careful ?_
    intro valid
    cases valid with
    | false => exact ih found
    | true =>
      refine careful_bind undrawn_endEffector.careful ?_
      intro there
      cases region.contains there with
      | false => exact ih found
      | true =>
        refine careful_bind careful_connect ?_
        intro result
        cases result with
        | ok t => trivial
        | error reason =>
          cases reason with
          | exhausted => exact ih true
          | _ => trivial

/-- What holds of a result, of what follows a part that draws nothing, and of the rest of a search
for the problem, holds of the whole search. -/
theorem search_of_rest {problem : Problem}
    {holds : Course (Except SolveFailure Trajectory) → Prop}
    (ended : ∀ result, holds (pure result))
    (follows : ∀ {β : Type} {x : Course β} {f : β → Course (Except SolveFailure Trajectory)},
      x.Undrawn → (∀ b, holds (f b)) → holds (x >>= f))
    (connects : ∀ start goal, problem = .toConfiguration start goal →
      holds (connect s start goal))
    (reaches : ∀ start region, problem = .toRegion start region →
      holds (reachRegion s start region s.goalSamples false)) :
    holds (search s problem) := by
  refine follows undrawn_dof ?_
  intro dof
  split
  next => exact ended _
  next =>
    refine follows (undrawn_stateValid _) ?_
    intro begins
    cases begins with
    | false => exact ended _
    | true =>
      cases problem with
      | toConfiguration start goal =>
        simp only [Bool.not_true, Bool.false_eq_true, if_false]
        split
        next => exact ended _
        next =>
          refine follows (undrawn_stateValid goal) ?_
          intro stands
          cases stands with
          | false => exact ended _
          | true =>
            simp only [Bool.not_true, Bool.false_eq_true, if_false]
            split
            next => exact ended _
            next => exact connects start goal rfl
      | toRegion start region =>
        simp only [Bool.not_true, Bool.false_eq_true, if_false]
        refine follows undrawn_endEffector ?_
        intro there
        split
        next => exact ended _
        next => exact reaches start region rfl

/-- A search that has drawn comes to nothing that it would have come to at once. -/
theorem endsDrawn_search (problem : Problem) :
    (search s problem).EndsDrawn fun result => ¬ Immediate problem result := by
  apply search_of_rest
  · exact fun _ => trivial
  · exact endsDrawn_bind
  · exact fun start goal _ => endsDrawn_connect
  · intro start region same
    subst same
    exact (ends_reachRegion _ _).drawn

theorem careful_search (problem : Problem) : (search s problem).Careful false := by
  apply search_of_rest
  · exact fun _ => trivial
  · exact fun undrawn => careful_bind undrawn.careful
  · exact fun start goal _ => careful_connect
  · exact fun start region _ => careful_reachRegion _ _

end Search

end Course

end MotionRace
