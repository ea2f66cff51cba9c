import MotionRace.Proofs.Race.CalledOff

/-!
# Whose tokens are whose

A call registers tokens with the race in flight, hands them to the threads it starts, and its race
is the only one that can signal them. What keeps races apart is that flags are never used twice: the
bridge and the abort flag of a race are made after every token that an earlier race registered, and
no other race is in flight while the bridge fills.

Main statement: `Fenced.raised_by`. A token of a race is stopped by an abort while that race is in
flight, or by the call of that race itself, and by nobody else.
-/

namespace MotionRace

namespace Flags

theorem flag_of_mem_freshMany {flags : Flags} {count : Nat} {token : Token}
    (made : token ∈ (flags.freshMany count).1) :
    flags.raised.length ≤ token.flag ∧
      token.flag < (flags.freshMany count).2.raised.length := by
  induction count generalizing flags with
  | zero => exact absurd made List.not_mem_nil
  | succ count ih =>
    have longer : flags.fresh.2.raised.length = flags.raised.length + 1 := by
      simp only [fresh, List.length_append, List.length_singleton]
    rcases List.mem_cons.mp made with rfl | made
    · have kept := length_freshMany_raised flags.fresh.2 count
      rw [longer] at kept
      exact ⟨Nat.le_refl _, kept⟩
    · have above : flags.fresh.2.raised.length ≤ token.flag := (ih made).1
      rw [longer] at above
      exact ⟨Nat.le_of_succ_le above, (ih made).2⟩

theorem isStopped_foldl_of_mem {flags : Flags} {token : Token} {tokens : List Token}
    (listed : token ∈ tokens) (inside : token.flag < flags.raised.length) :
    (tokens.foldl Flags.request flags).isStopped token = true := by
  induction tokens generalizing flags with
  | nil => exact absurd listed List.not_mem_nil
  | cons first rest ih =>
    have wide : token.flag < (flags.request first).raised.length := by
      rwa [request, List.length_set]
    rcases List.mem_cons.mp listed with rfl | listed
    · exact isStopped_foldl_request rest (isStopped_request_self inside)
    · exact ih listed wide

/-- A request stops no token but its own. -/
theorem stopped_or_eq_of_request {flags : Flags} {first token : Token}
    (stopped : (flags.request first).isStopped token = true) :
    flags.isStopped token = true ∨ token = first := by
  by_cases same : first.flag = token.flag
  · right
    cases token
    cases first
    exact congrArg Token.mk same.symm
  · rw [isStopped_request_of_ne flags same] at stopped
    exact .inl stopped

theorem stopped_or_mem_of_foldl {flags : Flags} {token : Token} {tokens : List Token}
    (stopped : (tokens.foldl Flags.request flags).isStopped token = true) :
    flags.isStopped token = true ∨ token ∈ tokens := by
  induction tokens generalizing flags with
  | nil => exact .inl stopped
  | cons first rest ih =>
    rcases ih stopped with before | listed
    · rcases stopped_or_eq_of_request before with before | rfl
      · exact .inl before
      · exact .inr (List.mem_cons_self ..)
    · exact .inr (List.mem_cons_of_mem _ listed)

end Flags

variable {σ : Type} {D : Domain σ}

/-- The tokens that a call in a phase has registered and not handed to a thread. -/
def CallPhase.tokens : CallPhase D → List Token
  | .registered claimed _ => claimed.map (·.2)
  | .launching rest .. => rest.map (·.2)
  | _ => []

/-- The handle that a call in a phase has on its abort flag. -/
def CallPhase.abort? : CallPhase D → Option Token
  | .registered _ abort => some abort
  | .launching _ _ _ _ abort => some abort
  | .collecting _ abort => some abort
  | _ => none

namespace Machine

/-- Whether a token is one of a race: its call has yet to hand it to a thread, or one of its threads
has it. -/
def Issued (m : Machine D) (index : Nat) (token : Token) : Prop :=
  token ∈ (m.phaseOf index).tokens ∨
    ∃ thread ∈ m.threads, thread.call = index ∧ thread.token = token

/-- Where the tokens of races lie: those of the race in flight are the ones that its bridge holds,
and none of them is an abort flag. -/
structure Fenced (m : Machine D) : Prop where
  inside : ∀ index token, m.Issued index token → token.flag < m.flags.raised.length
  reached : ∀ token ∈ m.flight.bridge.tokens, token.flag < m.flags.raised.length
  unlike : ∀ index token, m.Issued index token → token ≠ m.flight.abort
  own : ∀ index token, m.InFlight index → m.Issued index token →
    token ∈ m.flight.bridge.tokens
  apart : ∀ index other token, m.Issued index token → m.InFlight other →
    token ∈ m.flight.bridge.tokens → index = other

/-! ## Threads and tokens across a step -/

section Moves

variable {m next effect : Machine D} {left : List Nat} {index runner : Nat} {problem : D.Problem}
  {event : Event D} {before after : CallPhase D} {thread : Thread D} {token : Token}

/-- What a thread makes happen is a move of that thread. -/
theorem Move.exists_threadMove (move : Move m (.thread runner) next)
    (there : m.threads[runner]? = some thread) :
    ∃ housed effect later, m.slots[thread.slot]? = some housed ∧
      ThreadMove m runner thread housed thread.phase effect later ∧
      next = effect.setThread runner later ∧
      next.threads[runner]? = some { thread with phase := later } := by
  cases move with
  | @ofThread _ mover housed effect later placed located move =>
    obtain rfl := Option.some.inj (placed.symm.trans there)
    exact ⟨housed, effect, later, located, move, rfl,
      threads_setThread_self move.threads_eq there later⟩
  | ofCall _ move => cases move

/-- A thread stays what it is, its phase apart. -/
theorem Move.thread_after (move : Move m event next) (there : m.threads[runner]? = some thread) :
    ∃ phase, next.threads[runner]? = some { thread with phase } := by
  by_cases own : event = .thread runner
  · subst own
    obtain ⟨_, _, later, -, -, -, now⟩ := move.exists_threadMove there
    exact ⟨later, now⟩
  · exact ⟨thread.phase, move.threads_eq there own⟩

/-- A thread was there before a step, or its call has just started it for the next slot. -/
theorem Move.thread_before (move : Move m event next)
    (there : next.threads[runner]? = some thread) :
    (∃ phase, m.threads[runner]? = some { thread with phase }) ∨
      runner = m.threads.length ∧ thread.phase = .starting ∧ event = .call thread.call ∧
        ∃ rest places failures launched abort, m.phaseOf thread.call =
          .launching ((thread.slot, thread.token) :: rest) places failures launched abort := by
  cases former : m.threads[runner]? with
  | some old =>
    obtain ⟨phase, now⟩ := move.thread_after former
    obtain rfl := Option.some.inj (now.symm.trans there)
    exact .inl ⟨old.phase, rfl⟩
  | none =>
    right
    have beyond := List.getElem?_eq_none_iff.mp former
    have inside := (List.getElem?_eq_some_iff.mp there).1
    cases move with
    | arrives => exact absurd beyond (Nat.not_le_of_lt inside)
    | @ofCall mover _ _ _ effect after placed move =>
      have length : (effect.setCall mover after).threads.length = effect.threads.length := rfl
      cases move with
      | @launches slot token rest places failures launched abort =>
        have grown : (m.threads ++ [_])[runner]? = some thread := there
        rw [List.getElem?_append_right beyond, List.getElem?_singleton] at grown
        split at grown
        · obtain rfl := Option.some.inj grown
          exact ⟨by omega, rfl, rfl, rest, places, failures, launched, abort,
            Machine.phaseOf_eq placed⟩
        · cases grown
      | _ => exact absurd beyond (Nat.not_le_of_lt inside)
    | @ofThread mover _ _ effect later placed housed move =>
      have length : (effect.setThread mover later).threads.length = m.threads.length := by
        simp only [setThread, move.threads_eq, List.length_modify]
      omega
    | aborts =>
      rw [threads_abort] at inside
      omega

theorem CallMove.tokens_before (move : CallMove m index problem event before effect after)
    (listed : token ∈ after.tokens) :
    token ∈ before.tokens ∨
      ∃ claimed, before = .registering claimed ∧ token ∈ m.newTokens claimed.length := by
  cases move with
  | @registers claimed =>
    obtain ⟨entry, paired, rfl⟩ := List.mem_map.mp listed
    exact .inr ⟨claimed, rfl, (List.of_mem_zip paired).2⟩
  | goesAhead => exact .inl listed
  | launches | notStarted => exact .inl (List.mem_cons_of_mem _ listed)
  | @claimsOver _ claimed busy =>
    cases claimed <;> cases busy <;> exact absurd listed List.not_mem_nil
  | _ => exact absurd listed List.not_mem_nil

/-- A token of a race was one before a step, or the call of the race has just registered it. -/
theorem Move.issued_before (move : Move m event next) (issued : next.Issued index token) :
    m.Issued index token ∨ event.party? = some (.call index) ∧
      ∃ claimed, m.phaseOf index = .registering claimed ∧ token ∈ m.newTokens claimed.length := by
  rcases issued with listed | ⟨thread, there, rfl, rfl⟩
  · by_cases own : event.party? = some (.call index)
    · have party := own
      obtain ⟨problem, before, effect, after, there, own, rfl⟩ := move.exists_callMove own
      rw [phaseOf_setCall_self own.calls_eq there] at listed
      rcases own.tokens_before listed with former | ⟨claimed, rfl, made⟩
      · exact .inl (.inl (Machine.phaseOf_eq there ▸ former))
      · exact .inr ⟨party, claimed, Machine.phaseOf_eq there, made⟩
    · rw [move.phaseOf_eq own] at listed
      exact .inl (.inl listed)
  · obtain ⟨runner, there⟩ := List.getElem?_of_mem there
    rcases move.thread_before there with ⟨phase, former⟩ |
      ⟨-, -, -, rest, places, failures, launched, abort, launching⟩
    · exact .inl (.inr ⟨_, List.mem_of_getElem? former, rfl, rfl⟩)
    · left
      left
      rw [launching]
      exact List.mem_cons_self ..

theorem CallMove.abort_before (move : CallMove m index problem event before effect after)
    {abort : Token} (handle : after.abort? = some abort) :
    before.abort? = some abort ∨ (∃ claimed, before = .registering claimed) ∧
      abort = m.flight.abort := by
  cases move with
  | registers => exact .inr ⟨⟨_, rfl⟩, (Option.some.inj handle).symm⟩
  | goesAhead | launched | launches | notStarted | collects => exact .inl handle
  | @claimsOver _ claimed busy => cases claimed <;> cases busy <;> cases handle
  | _ => cases handle

/-- What a step does to the race in flight: a new race begins, the race in flight registers its
workers, or its bridge and its abort flag stay. -/
inductive FlightStep (m next : Machine D) : Prop where
  | begins (mover : Nat) (new : m.phaseOf mover = .arriving) (idle : m.isRacing = false)
    (flight : next.flight = m.beginFlight.flight) (flags : next.flags = m.beginFlight.flags)
    (flying : ∀ index, next.InFlight index → index = mover ∨ m.InFlight index)
  | registers (mover : Nat) (claimed : List Nat) (now : m.phaseOf mover = .registering claimed)
    (flight : next.flight = (m.enroll claimed.length).flight)
    (flags : next.flags = (m.enroll claimed.length).flags)
    (flying : ∀ index, next.InFlight index → m.InFlight index)
  | stays (bridge : next.flight.bridge = m.flight.bridge)
    (abort : next.flight.abort = m.flight.abort)
    (length : next.flags.raised.length = m.flags.raised.length)
    (flying : ∀ index, next.InFlight index → m.InFlight index)
    (issued : ∀ index token, next.Issued index token → m.Issued index token)

theorem Move.flightStep (move : Move m event next) : FlightStep m next := by
  cases move with
  | arrives problem =>
    refine .stays rfl rfl rfl (fun index flying => ?_) fun index token issued => ?_
    · rw [inFlight_iff] at flying ⊢
      rwa [(Move.arrives problem).phaseOf_eq nofun] at flying
    · exact ((Move.arrives problem).issued_before issued).resolve_right fun made => nomatch made.1
  | @ofCall mover problem event before effect after there move =>
    have flying (index : Nat) (flying : (effect.setCall mover after).InFlight index) :
        index = mover ∨ m.InFlight index := by
      rw [inFlight_iff] at flying ⊢
      by_cases same : mover = index
      · exact .inl same.symm
      · rw [phaseOf_setCall_ne move.calls_eq same] at flying
        exact .inr flying
    have stays (flies : before.inFlight = true ∨ after.inFlight = false) (index : Nat)
        (now : (effect.setCall mover after).InFlight index) : m.InFlight index := by
      refine (flying index now).elim (fun same => ?_) id
      subst same
      rw [inFlight_iff, phaseOf_setCall_self move.calls_eq there] at now
      rw [inFlight_iff, Machine.phaseOf_eq there]
      exact flies.resolve_right (ne_false_of_eq_true now)
    have issued (other : ∀ claimed, before ≠ .registering claimed) (index : Nat) (token : Token)
        (now : (effect.setCall mover after).Issued index token) : m.Issued index token := by
      refine ((Move.ofCall there move).issued_before now).resolve_right ?_
      rintro ⟨own, claimed, registering, -⟩
      obtain rfl := Party.call.inj (Option.some.inj (move.party_eq.symm.trans own))
      exact other claimed ((Machine.phaseOf_eq there).symm.trans registering)
    cases move with
    | begins idle | beginsAtOnce idle =>
      exact .begins mover (Machine.phaseOf_eq there) idle rfl rfl flying
    | registers =>
      exact .registers mover _ (Machine.phaseOf_eq there) rfl rfl (stays (.inl rfl))
    | signals =>
      exact .stays rfl rfl (Flags.length_foldl_request _ _) (stays (.inl rfl)) (issued nofun)
    | turnedAway => exact .stays rfl rfl rfl (stays (.inr rfl)) (issued nofun)
    | _ => exact .stays rfl rfl rfl (stays (.inl rfl)) (issued nofun)
  | @ofThread mover thread housed effect later there located move =>
    refine .stays (congrArg Flight.bridge move.flight_eq) (congrArg Flight.abort move.flight_eq)
      (congrArg (fun flags : Flags => flags.raised.length) move.flags_eq) (fun index flying => ?_)
      fun index token issued => ?_
    · obtain ⟨call, there, flying⟩ := flying
      exact ⟨call, move.calls_eq ▸ there, flying⟩
    · exact ((Move.ofThread there located move).issued_before issued).resolve_right
        fun made => nomatch made.1
  | aborts =>
    refine .stays (congrArg Flight.bridge (flight_abort m))
      (congrArg Flight.abort (flight_abort m)) ?_ (fun index flying => ?_)
      fun index token issued => ?_
    · unfold abort
      split
      · exact (Flags.length_foldl_request ..).trans (List.length_set ..)
      · rfl
    · obtain ⟨call, there, flying⟩ := flying
      exact ⟨call, calls_abort m ▸ there, flying⟩
    · exact (Move.aborts.issued_before issued).resolve_right fun made => nomatch made.1

/-! ## The fences -/

section Fences

variable (fenced : m.Fenced) (balanced : Balanced m left) (move : Move m event next)
include fenced balanced move

/-- A race that begins has no token yet, and its abort flag is newer than any token. -/
theorem Fenced.begins (idle : m.isRacing = false) {mover : Nat}
    (unmanned : ∀ thread ∈ m.threads, thread.call ≠ mover)
    (new : m.phaseOf mover = .arriving) (flight : next.flight = m.beginFlight.flight)
    (flags : next.flags = m.beginFlight.flags)
    (flying : ∀ index, next.InFlight index → index = mover ∨ m.InFlight index) : next.Fenced := by
  have nobody (index : Nat) : ¬ m.InFlight index := fun flying =>
    absurd (balanced.racing_iff.mpr ⟨index, flying⟩) (ne_true_of_eq_false idle)
  have former (index : Nat) (token : Token) (issued : next.Issued index token) :
      m.Issued index token := by
    refine (move.issued_before issued).resolve_right ?_
    rintro ⟨-, claimed, registering, -⟩
    exact nobody index (inFlight_iff.mpr (by rw [registering]; rfl))
  have longer : next.flags.raised.length = m.flags.raised.length + 1 := by
    rw [flags]
    exact List.length_append ..
  have handed : next.flight.abort.flag = m.flags.raised.length := by
    rw [flight]
    rfl
  have empty : next.flight.bridge.tokens = [] := by
    rw [flight]
    rfl
  constructor
  · intro index token issued
    have inside := fenced.inside index token (former index token issued)
    omega
  · intro token listed
    rw [empty] at listed
    exact absurd listed List.not_mem_nil
  · intro index token issued same
    have inside := fenced.inside index token (former index token issued)
    rw [same, handed] at inside
    exact Nat.lt_irrefl _ inside
  · intro index token now issued
    obtain rfl := (flying index now).resolve_right (nobody index)
    rcases former index token issued with listed | ⟨thread, there, mine, -⟩
    · rw [new] at listed
      exact absurd listed List.not_mem_nil
    · exact absurd mine (unmanned thread there)
  · intro index other token issued now listed
    rw [empty] at listed
    exact absurd listed List.not_mem_nil

/-- The tokens that the race in flight registers are newer than any other and than its abort
flag. -/
theorem Fenced.registers {mover : Nat} {claimed : List Nat}
    (abort : m.flight.abort.flag < m.flags.raised.length)
    (now : m.phaseOf mover = .registering claimed)
    (flight : next.flight = (m.enroll claimed.length).flight)
    (flags : next.flags = (m.enroll claimed.length).flags)
    (flying : ∀ index, next.InFlight index → m.InFlight index) : next.Fenced := by
  have aboard : m.InFlight mover := by
    rw [inFlight_iff, now]
    rfl
  have tokens : next.flight.bridge.tokens =
      m.flight.bridge.tokens ++ m.newTokens claimed.length := by
    rw [flight]
    rfl
  have same : next.flight.abort = m.flight.abort := by
    rw [flight]
    rfl
  have wide : m.flags.raised.length ≤ next.flags.raised.length := by
    rw [flags]
    exact Flags.length_freshMany_raised ..
  have fresh (token : Token) (made : token ∈ m.newTokens claimed.length) :
      m.flags.raised.length ≤ token.flag ∧ token.flag < next.flags.raised.length := by
    rw [flags]
    exact Flags.flag_of_mem_freshMany made
  have source (index : Nat) (token : Token) (issued : next.Issued index token) :
      m.Issued index token ∨ index = mover ∧ token ∈ m.newTokens claimed.length := by
    refine (move.issued_before issued).imp_right ?_
    rintro ⟨-, other, also, made⟩
    have flies : m.InFlight index := by
      rw [inFlight_iff, also]
      rfl
    obtain rfl := balanced.flight_unique flies aboard
    obtain rfl := CallPhase.registering.inj (also.symm.trans now)
    exact ⟨rfl, made⟩
  constructor
  · intro index token issued
    rcases source index token issued with former | ⟨-, made⟩
    · exact Nat.lt_of_lt_of_le (fenced.inside index token former) wide
    · exact (fresh token made).2
  · intro token listed
    rw [tokens] at listed
    rcases List.mem_append.mp listed with listed | made
    · exact Nat.lt_of_lt_of_le (fenced.reached token listed) wide
    · exact (fresh token made).2
  · intro index token issued
    rw [same]
    rcases source index token issued with former | ⟨-, made⟩
    · exact fenced.unlike index token former
    · rintro rfl
      exact absurd abort (Nat.not_lt_of_le (fresh _ made).1)
  · intro index token flies issued
    rw [tokens]
    rcases source index token issued with former | ⟨-, made⟩
    · exact List.mem_append_left _ (fenced.own index token (flying index flies) former)
    · exact List.mem_append_right _ made
  · intro index other token issued flies listed
    rw [tokens] at listed
    obtain rfl := balanced.flight_unique (flying other flies) aboard
    rcases source index token issued with former | ⟨same, -⟩
    · rcases List.mem_append.mp listed with listed | made
      · exact fenced.apart index other token former aboard listed
      · have inside := fenced.inside index token former
        exact absurd inside (Nat.not_lt_of_le (fresh token made).1)
    · exact same

theorem Fenced.step (abort : m.flight.abort.flag < m.flags.raised.length)
    (unmanned : ∀ index, (m.phaseOf index).isUnlaunched = true →
      ∀ thread ∈ m.threads, thread.call ≠ index) : next.Fenced := by
  cases move.flightStep with
  | begins mover new idle flight flags flying =>
    have first := unmanned mover (by rw [new]; rfl)
    exact fenced.begins balanced move idle first new flight flags flying
  | registers mover claimed now flight flags flying =>
    exact fenced.registers balanced move abort now flight flags flying
  | stays bridge same length flying former =>
    constructor
    · intro index token issued
      rw [length]
      exact fenced.inside index token (former index token issued)
    · intro token listed
      rw [length]
      exact fenced.reached token (bridge ▸ listed)
    · intro index token issued
      rw [same]
      exact fenced.unlike index token (former index token issued)
    · intro index token flies issued
      rw [bridge]
      exact fenced.own index token (flying index flies) (former index token issued)
    · intro index other token issued flies listed
      exact fenced.apart index other token (former index token issued) (flying other flies)
        (bridge ▸ listed)

end Fences

/-! ## Who stops a token -/

/-- A token is stopped by an abort of the race in flight, which asks its abort flag and what its
bridge holds, or by a call that signals what its bridge holds. -/
theorem Move.stopped_cases (move : Move m event next) (unstopped : m.flags.isStopped token = false)
    (stopped : next.flags.isStopped token = true) :
    (event = .abort ∧ m.isRacing = true ∧
      (token = m.flight.abort ∨ token ∈ m.flight.bridge.tokens)) ∨
    ∃ mover outcome, event = .call mover ∧ m.phaseOf mover = .signalling outcome ∧
      token ∈ m.flight.bridge.tokens := by
  cases move with
  | arrives => exact absurd stopped (ne_true_of_eq_false unstopped)
  | @ofCall mover _ _ before effect _ there move =>
    by_cases signalling : ∃ outcome, before = .signalling outcome
    · obtain ⟨outcome, rfl⟩ := signalling
      cases move with
      | signals =>
        refine .inr ⟨mover, outcome, rfl, Machine.phaseOf_eq there, ?_⟩
        exact (Flags.stopped_or_mem_of_foldl stopped).resolve_left (ne_true_of_eq_false unstopped)
    · have same := move.isStopped_eq (fun outcome now => signalling ⟨outcome, now⟩) token
      exact absurd stopped (ne_true_of_eq_false (same.trans unstopped))
  | @ofThread _ _ _ effect _ there located move =>
    have now : effect.flags.isStopped token = true := stopped
    rw [move.flags_eq] at now
    exact absurd now (ne_true_of_eq_false unstopped)
  | aborts =>
    left
    unfold abort at stopped
    split at stopped
    next racing =>
      refine ⟨rfl, racing, ?_⟩
      rcases Flags.stopped_or_mem_of_foldl stopped with asked | listed
      · rcases Flags.stopped_or_eq_of_request asked with before | same
        · exact absurd before (ne_true_of_eq_false unstopped)
        · exact .inl same
      · exact .inr listed
    next => exact absurd stopped (ne_true_of_eq_false unstopped)

/-- A token of a race is stopped by an abort while that race is in flight, or by the call of that
race. -/
theorem Fenced.raised_by (fenced : m.Fenced) (balanced : Balanced m left)
    (move : Move m event next) (issued : m.Issued index token)
    (unstopped : m.flags.isStopped token = false) (stopped : next.flags.isStopped token = true) :
    (event = .abort ∧ m.InFlight index) ∨
      event = .call index ∧ ∃ outcome, m.phaseOf index = .signalling outcome := by
  rcases move.stopped_cases unstopped stopped with ⟨called, racing, either⟩ |
    ⟨mover, outcome, moved, signalling, listed⟩
  · have listed := either.resolve_left (fenced.unlike index token issued)
    obtain ⟨other, flying⟩ := balanced.racing_iff.mp racing
    obtain rfl := fenced.apart index other token issued flying listed
    exact .inl ⟨called, flying⟩
  · have flying : m.InFlight mover := by
      rw [inFlight_iff, signalling]
      rfl
    obtain rfl := fenced.apart index mover token issued flying listed
    exact .inr ⟨moved, outcome, signalling⟩

end Moves

/-! ## Over a history -/

section Run

variable {workers : List (Worker D)} {waits : Waits} {logs : Bool} {shared : σ}
  {m start : Machine D} {events : List (Event D)} {index runner : Nat} {thread : Thread D}
  {token : Token}

theorem fenced_of_steps (run : (ofWorkers workers waits logs shared).steps events = some m) :
    m.Fenced := by
  induction events, m, run using steps_induction with
  | nothing =>
    have nothing (index : Nat) (token : Token) :
        ¬ (ofWorkers workers waits logs shared).Issued index token := by
      rintro (listed | ⟨thread, there, -⟩)
      · exact absurd listed List.not_mem_nil
      · exact absurd there List.not_mem_nil
    constructor
    · exact fun index token issued => absurd issued (nothing index token)
    · exact fun token listed => absurd listed List.not_mem_nil
    · exact fun index token issued => absurd issued (nothing index token)
    · exact fun index token _ issued => absurd issued (nothing index token)
    · exact fun index _ token issued => absurd issued (nothing index token)
  | more events m event next run step ih =>
    exact ih.step (balanced_of_steps run) (move_of_step step) (abort_lt_of_steps run)
      fun index unlaunched => threadless_of_steps run unlaunched

/-- A call looks at the abort flag of the race in flight. -/
theorem handle_of_steps (run : (ofWorkers workers waits logs shared).steps events = some m)
    {abort : Token} (handle : (m.phaseOf index).abort? = some abort) :
    abort = m.flight.abort := by
  induction events, m, run using steps_induction with
  | nothing => cases handle
  | more events m event next run step ih =>
    have move := move_of_step step
    have former : (m.phaseOf index).abort? = some abort ∨
        m.InFlight index ∧ abort = m.flight.abort := by
      by_cases own : event.party? = some (.call index)
      · obtain ⟨problem, before, effect, after, there, own, rfl⟩ := move.exists_callMove own
        rw [phaseOf_setCall_self own.calls_eq there] at handle
        rw [phaseOf_eq there]
        refine (own.abort_before handle).imp_right ?_
        rintro ⟨⟨claimed, rfl⟩, same⟩
        exact ⟨⟨_, there, rfl⟩, same⟩
      · rw [move.phaseOf_eq own] at handle
        exact .inl handle
    have flying : m.InFlight index := by
      rcases former with former | ⟨flying, -⟩
      · rw [inFlight_iff]
        cases phase : m.phaseOf index with
        | arriving | ended => rw [phase] at former; cases former
        | _ => rfl
      · exact flying
    rw [move.abort_eq ((balanced_of_steps run).racing_iff.mpr ⟨index, flying⟩)]
    exact former.elim ih And.right

/-- A thread keeps its call, its slot, its problem and its token. -/
theorem thread_of_steps (run : start.steps events = some m)
    (there : start.threads[runner]? = some thread) :
    ∃ phase, m.threads[runner]? = some { thread with phase } := by
  induction events, m, run using steps_induction with
  | nothing => exact ⟨thread.phase, there⟩
  | more events m event next run step ih =>
    obtain ⟨phase, there⟩ := ih
    obtain ⟨later, now⟩ := (move_of_step step).thread_after there
    exact ⟨later, now⟩

/-- A thread runs a slot of the pool. -/
theorem slot_lt_of_steps (run : (ofWorkers workers waits logs shared).steps events = some m)
    (there : m.threads[runner]? = some thread) : thread.slot < m.slots.length := by
  induction events, m, run using steps_induction generalizing thread with
  | nothing => cases there
  | more events m event next run step ih =>
    have move := move_of_step step
    rw [move.length_slots]
    rcases move.thread_before there with ⟨phase, former⟩ |
      ⟨-, -, -, rest, places, failures, launched, abort, launching⟩
    · have inside := ih former
      exact inside
    · have flying : m.InFlight thread.call := inFlight_iff.mpr (by rw [launching]; rfl)
      obtain ⟨call, placed, -⟩ := flying
      have held : thread.slot ∈ call.phase.held := by
        rw [← Machine.phaseOf_eq placed, launching]
        exact List.mem_cons_self ..
      have holds : m.Holds (.call thread.call) thread.slot := ⟨call, placed, held⟩
      have busy := ((balanced_of_steps run).busy_of_holds holds).1
      apply Decidable.byContradiction
      intro beyond
      rw [isBusy, List.getElem?_eq_none (Nat.not_lt.mp beyond)] at busy
      cases busy

/-- No flag is taken back in a history. -/
theorem stopped_of_steps (run : start.steps events = some m)
    (stopped : start.flags.isStopped token = true) : m.flags.isStopped token = true := by
  induction events, m, run using steps_induction with
  | nothing => exact stopped
  | more events m event next run step ih => exact (move_of_step step).isStopped_mono ih

end Run

end Machine

end MotionRace
