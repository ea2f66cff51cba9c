import MotionRace.Proofs.Race.Progress

/-!
# Calls that come while a race is in flight

A call that comes while another has the racing flag is turned away in one step, and that step
changes nothing but the call itself. So the race in flight cannot tell whether others called: leave
their events out of a history and the rest still happens, up to the same machine but for the calls
of the others. What the race can come to is therefore what it can come to when nobody else calls.

Main statement: `others_leave_race_alone`.
-/

namespace MotionRace

variable {σ : Type} {D : Domain σ}

/-- Whether an event belongs to the race of a call: a step of the call itself or of a thread, or an
abort. What other callers do does not. -/
def Event.belongs (index : Nat) : Event D → Bool
  | .arrive _ => false
  | .call other => other == index
  | .expire other => other == index
  | .refuse other => other == index
  | .thread _ => true
  | .abort => true

namespace Machine

/-- Two machines that differ in the calls of others at most: they have the same slots with the same
marks and workers, the same flight with its bridge and its abort flag, the same stop flags, threads
and log, and the same call of the index. -/
def AgreeOn (index : Nat) (m other : Machine D) : Prop :=
  other = { m with calls := other.calls } ∧ other.calls[index]? = m.calls[index]?

/-- Whether the call of an index can come to an ending. -/
def CanEnd (m : Machine D) (index : Nat) (ending : Ending D.Artifact) : Prop :=
  ∃ events last, m.steps events = some last ∧ last.ending? index = some ending

/-- Whether the call of an index can come to an ending while nobody else calls or moves on with a
call. -/
def CanEndAlone (m : Machine D) (index : Nat) (ending : Ending D.Artifact) : Prop :=
  ∃ events last, (∀ event ∈ events, event.belongs index = true) ∧
    m.steps events = some last ∧ last.ending? index = some ending

/-! ## Agreement -/

namespace AgreeOn

variable {m other third next : Machine D} {index : Nat} {event : Event D}

theorem refl (index : Nat) (m : Machine D) : m.AgreeOn index m := ⟨rfl, rfl⟩

theorem symm (agree : m.AgreeOn index other) : other.AgreeOn index m := by
  obtain ⟨alike, same⟩ := agree
  refine ⟨?_, same.symm⟩
  rw [alike]

theorem trans (first : m.AgreeOn index other) (second : other.AgreeOn index third) :
    m.AgreeOn index third := by
  obtain ⟨alike, same⟩ := first
  obtain ⟨alike', same'⟩ := second
  refine ⟨?_, same'.trans same⟩
  rw [alike', alike]

theorem ending_eq (agree : m.AgreeOn index other) : other.ending? index = m.ending? index := by
  simp only [ending?, agree.2]

/-- Moving the call of the index on keeps two machines alike. -/
theorem setCall (agree : m.AgreeOn index other) (phase : CallPhase D) :
    (m.setCall index phase).AgreeOn index (other.setCall index phase) := by
  obtain ⟨alike, same⟩ := agree
  refine ⟨?_, ?_⟩
  · rw [alike]
    rfl
  · simp only [Machine.setCall, List.getElem?_modify_eq, same]

/-- What a worker answers when the call of the index asks it is the same on both. -/
theorem ask (agree : m.AgreeOn index other) (problem : D.Problem) (next : Nat) (claimed : List Nat)
    (busy : Nat) (slot : Slot D) : (m.ask index problem next claimed busy slot).AgreeOn index
      (other.ask index problem next claimed busy slot) := by
  obtain ⟨alike, same⟩ := agree
  generalize other.calls = calls at alike same
  subst alike
  unfold Machine.ask
  dsimp only
  generalize slot.worker.asks problem m.shared = answered
  obtain ⟨eligibility, shared⟩ := answered
  cases eligibility with
  | accepts | refuses | panics => exact setCall ⟨rfl, same⟩ _
  | undecided => exact ⟨rfl, same⟩

/-- What the call of the index does on one machine it does on the other. -/
theorem stepCall (agree : m.AgreeOn index other) (step : m.stepCall index = some next) :
    ∃ next', other.stepCall index = some next' ∧ next.AgreeOn index next' := by
  obtain ⟨alike, same⟩ := agree
  generalize other.calls = calls at alike same
  subst alike
  unfold Machine.stepCall at step ⊢
  simp only [same]
  obtain ⟨⟨problem, phase⟩, there, step⟩ := Option.bind_eq_some_iff.mp step
  simp only [there, Option.bind_eq_bind, Option.bind_some]
  cases phase with
  | arriving =>
    dsimp only at step ⊢
    split at step
    next racing =>
      cases step
      exact ⟨_, if_pos racing, setCall ⟨rfl, same⟩ _⟩
    next idle =>
      cases step
      exact ⟨_, if_neg idle, setCall ⟨rfl, same⟩ _⟩
  | waiting =>
    dsimp only at step ⊢
    split at step
    next => cases step
    next free =>
      cases step
      exact ⟨_, if_neg free, setCall ⟨rfl, same⟩ _⟩
  | claiming next claimed busy =>
    dsimp only at step ⊢
    cases housed : m.slots[next]? with
    | none =>
      simp only [housed] at step
      cases step
      exact ⟨_, rfl, setCall ⟨rfl, same⟩ _⟩
    | some slot =>
      simp only [housed] at step
      split at step
      next taken =>
        cases step
        exact ⟨_, if_pos taken, setCall ⟨rfl, same⟩ _⟩
      next free =>
        cases step
        exact ⟨_, if_neg free, setCall ⟨rfl, same⟩ _⟩
  | asking next claimed busy =>
    obtain ⟨slot, housed, step⟩ := Option.bind_eq_some_iff.mp step
    simp only [housed, Option.bind_some]
    split at step
    next => cases step
    next unlocked =>
      cases step
      exact ⟨_, if_neg unlocked, ask ⟨rfl, same⟩ ..⟩
  | registered claimed abort =>
    dsimp only at step ⊢
    split at step
    next stopped =>
      cases step
      exact ⟨_, if_pos stopped, setCall ⟨rfl, same⟩ _⟩
    next unstopped =>
      cases step
      exact ⟨_, if_neg unstopped, setCall ⟨rfl, same⟩ _⟩
  | handingBack claimed | launching claimed =>
    cases claimed with
    | nil | cons => cases step; exact ⟨_, rfl, setCall ⟨rfl, same⟩ _⟩
  | collecting c abort =>
    -- What a collector looks at are the threads, which both machines have.
    have looks : ({ m with calls } : Machine D).look = m.look := rfl
    simp only [looks]
    dsimp only at step
    cases looked : c.step (m.flags.isStopped abort) m.look with
    | goesOn next =>
      simp only [looked] at step ⊢
      cases step
      exact ⟨_, rfl, setCall ⟨rfl, same⟩ _⟩
    | decided outcome =>
      simp only [looked] at step ⊢
      cases outcome with
      | succeeded | allFailed | noneEligible | aborted =>
        cases step
        exact ⟨_, rfl, setCall ⟨rfl, same⟩ _⟩
  | registering | signalling | leaving =>
    cases step
    exact ⟨_, rfl, setCall ⟨rfl, same⟩ _⟩
  | ended => cases step

theorem expire (agree : m.AgreeOn index other) (step : m.expire index = some next) :
    ∃ next', other.expire index = some next' ∧ next.AgreeOn index next' := by
  unfold Machine.expire at step ⊢
  obtain ⟨⟨problem, phase⟩, there, step⟩ := Option.bind_eq_some_iff.mp step
  simp only [agree.2, there, Option.bind_eq_bind, Option.bind_some]
  cases phase with
  | waiting => cases step; exact ⟨_, rfl, agree.setCall _⟩
  | _ => cases step

theorem refuse (agree : m.AgreeOn index other) (step : m.refuse index = some next) :
    ∃ next', other.refuse index = some next' ∧ next.AgreeOn index next' := by
  obtain ⟨alike, same⟩ := agree
  generalize other.calls = calls at alike same
  subst alike
  unfold Machine.refuse at step ⊢
  obtain ⟨⟨problem, phase⟩, there, step⟩ := Option.bind_eq_some_iff.mp step
  simp only [same, there, Option.bind_eq_bind, Option.bind_some]
  cases phase with
  | launching rest =>
    cases rest with
    | nil => cases step
    | cons => cases step; exact ⟨_, rfl, setCall ⟨rfl, same⟩ _⟩
  | _ => cases step

/-- What a thread does on one machine it does on the other. -/
theorem stepThread {runner : Nat} (agree : m.AgreeOn index other)
    (step : m.stepThread runner = some next) :
    ∃ next', other.stepThread runner = some next' ∧ next.AgreeOn index next' := by
  obtain ⟨alike, same⟩ := agree
  generalize other.calls = calls at alike same
  subst alike
  unfold Machine.stepThread at step ⊢
  obtain ⟨⟨call, place, problem, token, phase⟩, there, step⟩ := Option.bind_eq_some_iff.mp step
  obtain ⟨slot, housed, step⟩ := Option.bind_eq_some_iff.mp step
  simp only [there, housed, Option.bind_eq_bind, Option.bind_some]
  cases phase with
  | starting =>
    dsimp only at step
    split at step
    next => cases step
    next unlocked =>
      cases step
      exact ⟨_, if_neg unlocked, rfl, same⟩
  | running phase =>
    cases phase with
    | entered | copying | solving | finished | died => cases step; exact ⟨_, rfl, rfl, same⟩
  | unlocked | freed | logged => cases step; exact ⟨_, rfl, rfl, same⟩
  | reported | died => cases step

theorem abort (agree : m.AgreeOn index other) : m.abort.2.AgreeOn index other.abort.2 := by
  obtain ⟨alike, same⟩ := agree
  generalize other.calls = calls at alike same
  subst alike
  unfold Machine.abort
  dsimp only
  split
  next => exact ⟨rfl, same⟩
  next => exact ⟨rfl, same⟩

/-- What belongs to the race of the index and happens on one machine happens on the other. -/
theorem step (agree : m.AgreeOn index other) (belongs : event.belongs index = true)
    (step : m.step event = some next) :
    ∃ next', other.step event = some next' ∧ next.AgreeOn index next' := by
  cases event with
  | arrive => cases belongs
  | call => obtain rfl := beq_iff_eq.mp belongs; exact agree.stepCall step
  | expire => obtain rfl := beq_iff_eq.mp belongs; exact agree.expire step
  | refuse => obtain rfl := beq_iff_eq.mp belongs; exact agree.refuse step
  | thread => exact agree.stepThread step
  | abort => cases step; exact ⟨_, rfl, agree.abort⟩

/-- A history of a race by itself happens on both machines. -/
theorem steps {events : List (Event D)} (agree : m.AgreeOn index other)
    (belong : ∀ event ∈ events, event.belongs index = true) (run : m.steps events = some next) :
    ∃ next', other.steps events = some next' ∧ next.AgreeOn index next' := by
  induction events generalizing m other with
  | nil => cases run; exact ⟨other, rfl, agree⟩
  | cons event rest ih =>
    obtain ⟨mid, first, run⟩ := Option.bind_eq_some_iff.mp run
    obtain ⟨mid', first', agree⟩ := agree.step (belong event List.mem_cons_self) first
    obtain ⟨next', run', agree⟩ :=
      ih agree (fun event listed => belong event (List.mem_cons_of_mem _ listed)) run
    exact ⟨next', by rw [steps_cons, first', Option.bind_some, run'], agree⟩

/-- A race comes to the same endings by itself on both machines. -/
theorem canEndAlone_iff (agree : m.AgreeOn index other) (ending : Ending D.Artifact) :
    m.CanEndAlone index ending ↔ other.CanEndAlone index ending := by
  have transfer {m other : Machine D} (agree : m.AgreeOn index other)
      (ends : m.CanEndAlone index ending) : other.CanEndAlone index ending := by
    obtain ⟨events, last, belong, run, ended⟩ := ends
    obtain ⟨last', run', agree⟩ := agree.steps belong run
    exact ⟨events, last', belong, run', agree.ending_eq.trans ended⟩
  exact ⟨transfer agree, transfer agree.symm⟩

end AgreeOn

/-! ## A race among other callers -/

section Race

variable {m next start later : Machine D} {left : List Nat} {index : Nat} {event : Event D}
  {during : List (Event D)}

theorem CallMove.lands {effect : Machine D} {problem : D.Problem} {before after : CallPhase D}
    (move : CallMove m index problem event before effect after)
    (flying : before.inFlight = true) :
    after.inFlight = true ∨ ∃ ending, after = .ended ending := by
  cases move with
  | turnedAway | begins | beginsAtOnce => cases flying
  | leaves => exact .inr ⟨_, rfl⟩
  | claimsOver => exact .inl (inFlight_afterClaims ..)
  | _ => exact .inl rfl

/-- A call in flight stays so or comes to its end. -/
theorem Move.lands (move : Move m event next) (flying : m.InFlight index) :
    next.InFlight index ∨ ∃ ending, next.ending? index = some ending := by
  rw [inFlight_iff] at flying
  by_cases own : event.party? = some (.call index)
  · obtain ⟨problem, before, effect, after, there, own, rfl⟩ := move.exists_callMove own
    have now := phaseOf_setCall_self own.calls_eq there after
    rw [Machine.phaseOf_eq there] at flying
    rcases own.lands flying with flies | ⟨ending, rfl⟩
    · exact .inl (inFlight_iff.mpr (now.symm ▸ flies))
    · exact .inr ⟨ending, ending_of_phaseOf now⟩
  · exact .inl (inFlight_iff.mpr ((move.phaseOf_eq own).symm ▸ flying))

/-- A call that came to its end stays there. -/
theorem Move.ending_eq {ending : Ending D.Artifact} (move : Move m event next)
    (ended : m.ending? index = some ending) : next.ending? index = some ending := by
  have landed := phaseOf_of_ending ended
  apply ending_of_phaseOf
  by_cases own : event.party? = some (.call index)
  · obtain ⟨problem, before, effect, after, there, own, rfl⟩ := move.exists_callMove own
    obtain rfl := (Machine.phaseOf_eq there).symm.trans landed
    cases own
  · rw [move.phaseOf_eq own, landed]

/-- What others can do while a race is in flight: come, and be turned away. -/
theorem Balanced.foreign_cases (balanced : Balanced m left) (flying : m.InFlight index)
    (move : Move m event next) (foreign : event.belongs index = false) :
    (∃ problem, next = { m with calls := m.calls ++ [{ problem }] }) ∨
      ∃ other problem, other ≠ index ∧ m.calls[other]? = some ⟨problem, .arriving⟩ ∧
        next = m.setCall other (.ended (.refused .alreadyRacing)) := by
  cases move with
  | arrives problem => exact .inl ⟨problem, rfl⟩
  | @ofCall other problem _ before effect after there move =>
    have apart : other ≠ index := by
      rintro rfl
      cases event <;> cases move.party_eq <;> simp [Event.belongs] at foreign
    have grounded : before.inFlight = false := by
      apply Bool.eq_false_iff.mpr
      intro flies
      exact apart (balanced.flight_unique ⟨_, there, flies⟩ flying)
    cases move with
    | turnedAway => exact .inr ⟨other, problem, apart, there, rfl⟩
    | begins idle | beginsAtOnce idle =>
      exact absurd (balanced.racing_iff.mpr ⟨index, flying⟩) (ne_true_of_eq_false idle)
    | _ => cases grounded
  | ofThread => cases foreign
  | aborts => cases foreign

/-- What others do while a race is in flight changes nothing but their own calls. -/
theorem Balanced.agreeOn_of_foreign (balanced : Balanced m left) (flying : m.InFlight index)
    (move : Move m event next) (foreign : event.belongs index = false) : m.AgreeOn index next := by
  obtain ⟨call, there, -⟩ := id flying
  have inside := (List.getElem?_eq_some_iff.mp there).1
  rcases balanced.foreign_cases flying move foreign with
    ⟨problem, rfl⟩ | ⟨other, problem, apart, -, rfl⟩
  · exact ⟨rfl, List.getElem?_append_left inside⟩
  · exact ⟨rfl, calls_setCall_ne rfl apart _⟩

/-- The calls of others after a step during a race: as they were, or just come, or turned away. -/
theorem Balanced.others_of_move (balanced : Balanced m left) (flying : m.InFlight index)
    (move : Move m event next) {other : Nat} {call : Call D} (apart : other ≠ index)
    (there : next.calls[other]? = some call) :
    m.calls[other]? = some call ∨ call.phase = .arriving ∨
      call.phase = .ended (.refused .alreadyRacing) := by
  cases belongs : event.belongs index with
  | false =>
    rcases balanced.foreign_cases flying move belongs with
      ⟨problem, rfl⟩ | ⟨comer, problem, -, came, rfl⟩
    · rw [List.getElem?_append] at there
      split at there
      · exact .inl there
      · rw [List.getElem?_singleton] at there
        split at there
        · cases there
          exact .inr (.inl rfl)
        · cases there
    · by_cases same : comer = other
      · subst same
        rw [calls_setCall_self rfl came] at there
        cases there
        exact .inr (.inr rfl)
      · rw [calls_setCall_ne rfl same] at there
        exact .inl there
  | true =>
    refine .inl (there ▸ ?_)
    cases move with
    | arrives => cases belongs
    | @ofCall mover _ _ _ _ _ _ move =>
      have own : mover = index := by
        cases event <;> cases move.party_eq <;> exact beq_iff_eq.mp belongs
      exact (calls_setCall_ne move.calls_eq (own ▸ apart.symm) _).symm
    | ofThread _ _ move => exact congrArg (·[other]?) move.calls_eq.symm
    | aborts => rw [calls_abort]

/-- A race among other callers, at every moment: either it is in flight, nobody else has done
anything but to come and be turned away, and it stands where it stands without them; or it came to
an ending that it can come to without them. -/
theorem Balanced.alone_or_ended (balanced : Balanced start left) (flying : start.InFlight index)
    (run : start.steps during = some later) :
    (later.InFlight index ∧
      (∀ other call, other ≠ index → later.calls[other]? = some call →
        start.calls[other]? = some call ∨ call.phase = .arriving ∨
          call.phase = .ended (.refused .alreadyRacing)) ∧
      ∃ alone, start.steps (during.filter (·.belongs index)) = some alone ∧
        later.AgreeOn index alone) ∨
    ∃ ending, later.ending? index = some ending ∧ start.CanEndAlone index ending := by
  induction during, later, run using steps_induction with
  | nothing => exact .inl ⟨flying, fun _ _ _ there => .inl there, start, rfl, .refl ..⟩
  | more during m event next run step ih =>
    have move := move_of_step step
    rcases ih with ⟨flies, others, alone, run', agree⟩ | ⟨ending, ended, alone⟩
    · have balanced := balanced.steps run
      have others' (other : Nat) (call : Call D) (apart : other ≠ index)
          (there : next.calls[other]? = some call) :=
        (balanced.others_of_move flies move apart there).elim (others other call apart) .inr
      cases belongs : event.belongs index with
      | false =>
        have same := balanced.agreeOn_of_foreign flies move belongs
        have flies' : next.InFlight index := by
          obtain ⟨call, there, up⟩ := flies
          exact ⟨call, same.2.trans there, up⟩
        refine .inl ⟨flies', others', alone, ?_, same.symm.trans agree⟩
        rw [List.filter_append, List.filter_cons_of_neg (by simp [belongs]), List.filter_nil,
          List.append_nil, run']
      | true =>
        obtain ⟨alone', step', agree⟩ := agree.step belongs step
        have run' : start.steps ((during ++ [event]).filter (·.belongs index)) = some alone' := by
          rw [List.filter_append, List.filter_cons_of_pos belongs]
          exact steps_concat run' step'
        rcases move.lands flies with flies' | ⟨ending, ended⟩
        · exact .inl ⟨flies', others', alone', run', agree⟩
        · exact .inr ⟨ending, ended, _, alone', fun _ listed => (List.mem_filter.mp listed).2, run',
            agree.ending_eq.trans ended⟩
    · exact .inr ⟨ending, move.ending_eq ended, alone⟩

/-- What a race in flight can come to among other callers, it can come to without them. -/
theorem Balanced.canEnd_iff (balanced : Balanced start left) (flying : start.InFlight index)
    (ending : Ending D.Artifact) :
    start.CanEnd index ending ↔ start.CanEndAlone index ending := by
  constructor
  · rintro ⟨during, last, run, ended⟩
    rcases balanced.alone_or_ended flying run with ⟨flies, -⟩ | ⟨ending', ended', alone⟩
    · rw [inFlight_iff, phaseOf_of_ending ended] at flies
      cases flies
    · obtain rfl := Option.some.inj (ended'.symm.trans ended)
      exact alone
  · rintro ⟨during, last, -, run, ended⟩
    exact ⟨during, last, run, ended⟩

end Race

/-- Other callers leave a race in flight alone, from any moment of any history and whatever happens
from there. -/
theorem others_leave_race_alone {workers : List (Worker D)} {waits : Waits} {logs : Bool}
    {shared : σ} {events : List (Event D)} {m : Machine D} {index : Nat}
    (run : (ofWorkers workers waits logs shared).steps events = some m)
    (flying : m.InFlight index) :
    -- Whoever calls now is turned away by one step that it can always take and that changes nothing
    -- but the call itself.
    (m.isRacing = true ∧
      ∀ other problem, m.calls[other]? = some ⟨problem, .arriving⟩ →
        m.step (.call other) = some (m.setCall other (.ended (.refused .alreadyRacing)))) ∧
    ∀ during later, m.steps during = some later → later.InFlight index →
      later.isRacing = true ∧
      -- However many others came meanwhile, each is yet to be turned away or was turned away.
      (∀ other call, other ≠ index → later.calls[other]? = some call →
        m.calls[other]? = some call ∨ call.phase = .arriving ∨
          call.phase = .ended (.refused .alreadyRacing)) ∧
      -- Without them everything but their calls is the same, and so is what the race can come to.
      ∃ alone, m.steps (during.filter (·.belongs index)) = some alone ∧
        later.AgreeOn index alone ∧
        ∀ ending, later.CanEnd index ending ↔ alone.CanEndAlone index ending := by
  have balanced := balanced_of_steps run
  have racing : m.isRacing = true := balanced.racing_iff.mpr ⟨index, flying⟩
  refine ⟨⟨racing, ?_⟩, ?_⟩
  · intro other problem there
    simp only [step, stepCall, there, Option.bind_eq_bind, Option.bind_some]
    exact if_pos racing
  · intro during later run' flies
    rcases balanced.alone_or_ended flying run' with ⟨-, others, alone, run'', agree⟩ | ⟨_, ended, -⟩
    · have balanced' := balanced.steps run'
      have racing' := balanced'.racing_iff.mpr ⟨index, flies⟩
      refine ⟨racing', others, alone, run'', agree, fun ending => ?_⟩
      exact (balanced'.canEnd_iff flies ending).trans (agree.canEndAlone_iff ending)
    · rw [inFlight_iff, phaseOf_of_ending ended] at flies
      cases flies

/-- One worker that waits to be stopped, and one that solves at once. -/
def patientAndQuick : Scripted.Script Nat Nat := { acts := [[.spin], [.succeed 5 0]] }

/-- A race that has started its threads. -/
def started : List (Event patientAndQuick.domain) :=
  [Event.arrive (0 : Nat)] ++ List.replicate 12 (Event.call 0)

/-- Two others call, one of them is turned away, and the quick worker reports. -/
def twoOthersCall : List (Event patientAndQuick.domain) :=
  [Event.arrive (1 : Nat), Event.thread 1, Event.call 1, Event.arrive (1 : Nat)] ++
    List.replicate 7 (Event.thread 1)

theorem race_beside_two_others :
    ∃ m later alone artifact,
      (patientAndQuick.coordinator { poll := 0, busy := 0 }).steps started = some m ∧
      m.InFlight 0 ∧ m.steps twoOthersCall = some later ∧ later.InFlight 0 ∧
      later.ending? 1 = some (.refused .alreadyRacing) ∧
      later.step (.call 2) = some (later.setCall 2 (.ended (.refused .alreadyRacing))) ∧
      m.steps (List.replicate 8 (.thread 1)) = some alone ∧ later.AgreeOn 0 alone ∧
      alone.CanEndAlone 0 (.outcome (.succeeded 1 artifact)) := by
  obtain ⟨m, later, artifact, run, flying, run', flies, away, waits, ends⟩ :
      ∃ m later artifact,
        (patientAndQuick.coordinator { poll := 0, busy := 0 }).steps started = some m ∧
        m.InFlight 0 ∧ m.steps twoOthersCall = some later ∧ later.InFlight 0 ∧
        later.ending? 1 = some (.refused .alreadyRacing) ∧
        later.calls[2]? = some ⟨(1 : Nat), .arriving⟩ ∧
        later.CanEnd 0 (.outcome (.succeeded 1 artifact)) :=
    ⟨_, _, _, rfl, ⟨_, rfl, rfl⟩, rfl, ⟨_, rfl, rfl⟩, rfl, rfl,
      List.replicate 4 (.call 0), _, rfl, rfl⟩
  obtain ⟨-, -, alone, run'', agree, same⟩ := (others_leave_race_alone run flying).2 _ _ run' flies
  have later' := steps_append (patientAndQuick.coordinator { poll := 0, busy := 0 }) started
    twoOthersCall
  rw [run, Option.bind_some, run'] at later'
  exact ⟨m, later, alone, artifact, run, flying, run', flies, away,
    (others_leave_race_alone later' flies).1.2 _ _ waits, run'', agree, (same _).mp ends⟩

end Machine

end MotionRace
