import MotionRace.Proofs.Race.Holders

/-!
# What raises a stop flag

A flag is raised by an abort or by a call that has decided its race, and by nobody else. It is never
taken back. The abort flag of a race stays in place as long as the race is in flight.
-/

namespace MotionRace

namespace Flags

theorem isStopped_fresh_eq (flags : Flags) (token : Token) :
    flags.fresh.2.isStopped token = flags.isStopped token := by
  simp only [fresh, isStopped, List.getD_eq_getElem?_getD, List.getElem?_append]
  split
  · rfl
  · next beyond =>
    rw [List.getElem?_eq_none (Nat.not_lt.mp beyond), List.getElem?_singleton]
    split <;> rfl

theorem isStopped_freshMany (flags : Flags) (count : Nat) (token : Token) :
    (flags.freshMany count).2.isStopped token = flags.isStopped token := by
  induction count generalizing flags with
  | zero => rfl
  | succ count ih =>
    simp only [freshMany]
    rw [ih, isStopped_fresh_eq]

/-- A token that was just made is not stopped. -/
theorem isStopped_of_mem_freshMany {flags : Flags} {count : Nat} {token : Token}
    (made : token ∈ (flags.freshMany count).1) : flags.isStopped token = false := by
  induction count generalizing flags with
  | zero => exact absurd made List.not_mem_nil
  | succ count ih =>
    rcases List.mem_cons.mp made with rfl | made
    · exact (isStopped_fresh_eq ..).symm.trans (isStopped_fresh flags)
    · rw [← isStopped_fresh_eq flags]
      exact ih made

theorem isStopped_foldl_request {flags : Flags} {token : Token} (tokens : List Token)
    (stopped : flags.isStopped token = true) :
    (tokens.foldl Flags.request flags).isStopped token = true := by
  induction tokens generalizing flags with
  | nil => exact stopped
  | cons other rest ih => exact ih (isStopped_request_of_isStopped other stopped)

theorem length_freshMany_raised (flags : Flags) (count : Nat) :
    flags.raised.length ≤ (flags.freshMany count).2.raised.length := by
  induction count generalizing flags with
  | zero => exact Nat.le_refl _
  | succ count ih =>
    refine Nat.le_trans ?_ (ih flags.fresh.2)
    simp only [fresh, List.length_append]
    exact Nat.le_add_right ..

theorem length_foldl_request (flags : Flags) (tokens : List Token) :
    (tokens.foldl Flags.request flags).raised.length = flags.raised.length := by
  induction tokens generalizing flags with
  | nil => rfl
  | cons token rest ih => exact (ih _).trans (List.length_set ..)

end Flags

variable {σ : Type} {D : Domain σ}

namespace Machine

section Moves

variable {m next effect : Machine D} {index : Nat} {problem : D.Problem} {event : Event D}
  {before after : CallPhase D} {token : Token}

/-- A move of a call raises no flag, unless it signals the workers of its race. -/
theorem CallMove.isStopped_eq (move : CallMove m index problem event before effect after)
    (undecided : ∀ outcome, before ≠ .signalling outcome) (token : Token) :
    effect.flags.isStopped token = m.flags.isStopped token := by
  cases move with
  | begins | beginsAtOnce => exact Flags.isStopped_fresh_eq ..
  | registers => exact Flags.isStopped_freshMany ..
  | @signals outcome => exact absurd rfl (undecided outcome)
  | _ => rfl

theorem CallMove.isStopped_mono (move : CallMove m index problem event before effect after)
    (stopped : m.flags.isStopped token = true) : effect.flags.isStopped token = true := by
  cases move with
  | begins | beginsAtOnce => exact (Flags.isStopped_fresh_eq ..).trans stopped
  | registers => exact (Flags.isStopped_freshMany ..).trans stopped
  | signals => exact Flags.isStopped_foldl_request _ stopped
  | _ => exact stopped

/-- No flag is ever taken back. -/
theorem Move.isStopped_mono (move : Move m event next) (stopped : m.flags.isStopped token = true) :
    next.flags.isStopped token = true := by
  cases move with
  | arrives => exact stopped
  | ofCall there move => exact move.isStopped_mono stopped
  | @ofThread _ _ _ effect _ there housed move =>
    change effect.flags.isStopped token = true
    rw [move.flags_eq]
    exact stopped
  | aborts =>
    unfold abort
    split
    · exact Flags.isStopped_foldl_request _ (Flags.isStopped_request_of_isStopped _ stopped)
    · exact stopped

/-- While a race is in flight its abort flag is the one it began with. -/
theorem Move.abort_eq (move : Move m event next) (racing : m.isRacing = true) :
    next.flight.abort = m.flight.abort := by
  cases move with
  | arrives => rfl
  | ofCall there move =>
    cases move with
    | begins idle | beginsAtOnce idle => exact absurd racing (ne_true_of_eq_false idle)
    | _ => rfl
  | @ofThread _ _ _ effect _ there housed move =>
    change effect.flight.abort = m.flight.abort
    rw [move.flight_eq]
  | aborts => rw [flight_abort]

/-- The abort flag of a race is a flag of the program. -/
theorem Move.abort_lt (move : Move m event next)
    (inside : m.flight.abort.flag < m.flags.raised.length) :
    next.flight.abort.flag < next.flags.raised.length := by
  cases move with
  | arrives => exact inside
  | ofCall there move =>
    cases move with
    | begins | beginsAtOnce => simp [beginFlight, setCall, Flags.fresh]
    | registers => exact Nat.lt_of_lt_of_le inside (Flags.length_freshMany_raised ..)
    | signals => exact Nat.lt_of_lt_of_eq inside (Flags.length_foldl_request ..).symm
    | _ => exact inside
  | @ofThread _ _ _ effect _ there housed move =>
    change effect.flight.abort.flag < effect.flags.raised.length
    rw [move.flight_eq, move.flags_eq]
    exact inside
  | aborts =>
    unfold abort
    split
    · refine Nat.lt_of_lt_of_eq inside ?_
      exact ((Flags.length_foldl_request ..).trans (List.length_set ..)).symm
    · exact inside

end Moves

theorem abort_lt_of_steps {workers : List (Worker D)} {waits : Waits} {logs : Bool} {shared : σ}
    {events : List (Event D)} {m : Machine D}
    (run : (ofWorkers workers waits logs shared).steps events = some m) :
    m.flight.abort.flag < m.flags.raised.length := by
  induction events, m, run using steps_induction with
  | nothing => exact Nat.zero_lt_one
  | more events m event next run step ih => exact (move_of_step step).abort_lt ih

/-- An abort of a race in flight raises its flag. -/
theorem isStopped_of_abort {workers : List (Worker D)} {waits : Waits} {logs : Bool} {shared : σ}
    {events : List (Event D)} {m next : Machine D}
    (run : (ofWorkers workers waits logs shared).steps events = some m)
    (abort : m.abort = (true, next)) :
    next.flags.isStopped next.flight.abort = true ∧ next.isRacing = true := by
  have inside := abort_lt_of_steps run
  unfold Machine.abort at abort
  split at abort
  next racing =>
    cases abort
    exact ⟨Flags.isStopped_foldl_request _ (Flags.isStopped_request_self inside), racing⟩
  next => cases abort

end Machine

end MotionRace
