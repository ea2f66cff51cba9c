import MotionRace.Proofs.Race.Aftermath
import MotionRace.Proofs.Race.BetweenRaces

/-!
# What workers answer

A run gives its worker another solver back, so what a worker answers could depend on the runs before
it. It does not where every solve keeps what the answer depends on (`Domain.Keeps`). If all workers
of a pool answer a problem alike, a race for it keeps all the slots that it asks or none of them,
and the first race of a pool asks them all.

Main statements: `first_race_of_the_willing` and `first_race_of_the_unwilling`.
-/

namespace MotionRace

variable {σ : Type} {D : Domain σ}

/-- What is true of a solver when it begins to solve is true of its session, and is true of the
solver that the session gives back. -/
structure Domain.Keeps (D : Domain σ) (fit : D.Solver → Prop) (sound : D.Session → Prop) :
    Prop where
  start : ∀ solver problem world backend shared, fit solver →
    sound (D.start solver problem world backend shared).1
  goesOn : ∀ session stopped shared later rest after, sound session →
    D.advance session stopped shared = (.goesOn later rest, after) → sound later
  ends : ∀ session stopped shared result solver backend after, sound session →
    D.advance session stopped shared = (.ends result solver backend, after) → fit solver

/-- Whether the session of a run is sound, if it has one. -/
def RunPhase.Sound (sound : D.Session → Prop) : RunPhase D → Prop
  | .solving session _ => sound session
  | _ => True

/-- Whether the session of a thread is sound, if it has one. -/
def ThreadPhase.Sound (sound : D.Session → Prop) : ThreadPhase D → Prop
  | .running phase => phase.Sound sound
  | _ => True

/-- Whether all solvers of a machine are fit and all its sessions are sound. -/
structure Machine.Fit (m : Machine D) (fit : D.Solver → Prop) (sound : D.Session → Prop) :
    Prop where
  slots : ∀ slot ∈ m.slots, fit slot.worker.solver
  threads : ∀ thread ∈ m.threads, thread.phase.Sound sound

/-- The slot whose worker a call in a phase is about to ask. -/
def CallPhase.inQuestion : CallPhase D → List Nat
  | .asking next _ _ => [next]
  | _ => []

/-- Whether a call in a phase has slots to look at. -/
def CallPhase.isPassing : CallPhase D → Bool
  | .waiting => true
  | .claiming .. => true
  | .asking .. => true
  | _ => false

/-- What a call has kept of the slots that it asked, if all workers answer alike: all of them if
they take its problem on, and none if they do not. No panic took it down. -/
structure CallPhase.Answered (takes : Bool) (asked kept : List Nat) (phase : CallPhase D) :
    Prop where
  up : phase.isDown = false
  all : takes = true → asked = kept ++ phase.inQuestion
  keptNil : takes = false → kept = []

/-! ## A pass that is over -/

/-- A pass that is over has dealt with every slot. -/
theorem CallPhase.Accounts.dealt {slots : Nat} {asked kept passed : List Nat}
    {phase : CallPhase D} (account : phase.Accounts slots asked kept passed)
    (begun : phase.begun = true) (up : phase.isDown = false)
    (finished : phase.isPassing = false) : Dealt slots asked kept passed := by
  cases phase with
  | arriving => cases begun
  | waiting | claiming | asking => cases finished
  | leaving ending | ended ending =>
    refine Ending.Accounts.dealt account begun ?_
    rintro panic rfl
    cases up
  | _ => exact account.1

/-- A pass that asked every slot asked them in pool order. -/
theorem Dealt.eq_range {slots : Nat} {asked kept : List Nat} (dealt : Dealt slots asked kept []) :
    asked = List.range slots := by
  have each := dealt.each
  rw [List.append_nil] at each
  refine each.eq_of_pairwise ?_ dealt.ordered List.pairwise_lt_range
  intro a b _ _ less more
  exact absurd less (Nat.lt_asymm more)

theorem Ending.Accounts.noneEligible {α : Type} {slots : Nat} {asked : List Nat}
    {ending : Ending α} (account : ending.Accounts slots asked [] [])
    (flown : ending.hadFlight = true) (up : ending.isPanic = false) :
    ending = .outcome .noneEligible := by
  cases ending with
  | outcome outcome =>
    cases outcome with
    | noneEligible => rfl
    | _ => exact absurd rfl account.2
  | refused error =>
    cases error with
    | alreadyRacing => cases flown
    | workersBusy busy =>
      obtain ⟨-, -, unmarked, marked⟩ := account
      exact absurd marked (unmarked ▸ Nat.lt_irrefl 0)
  | panicked => cases up

/-- A call that kept nothing and passed over nothing is on its way back with nobody eligible. -/
theorem CallPhase.Accounts.noneEligible {slots : Nat} {asked : List Nat} {phase : CallPhase D}
    (account : phase.Accounts slots asked [] []) (begun : phase.begun = true)
    (up : phase.isDown = false) (finished : phase.isPassing = false) :
    phase = .leaving (.outcome .noneEligible) ∨ phase = .ended (.outcome .noneEligible) := by
  cases phase with
  | leaving ending => exact .inl (congrArg _ (Ending.Accounts.noneEligible account begun up))
  | ended ending => exact .inr (congrArg _ (Ending.Accounts.noneEligible account begun up))
  | arriving => cases begun
  | waiting | claiming | asking => cases finished
  | registering | registered => exact absurd rfl account.2.2
  | signalling => exact absurd rfl account.2.1
  | _ => exact absurd rfl account.2

section Keeps

variable {fit : D.Solver → Prop} {sound : D.Session → Prop} (keeps : D.Keeps fit sound)
include keeps

theorem Worker.step_sound (w : Worker D) (problem : D.Problem) (stopped : Bool)
    {phase : RunPhase D} (shared : σ) (fits : fit w.solver) (sounds : phase.Sound sound) :
    fit (w.step problem stopped phase shared).1.2.solver ∧
      (w.step problem stopped phase shared).1.1.Sound sound := by
  cases phase with
  | entered => cases stopped <;> exact ⟨fits, trivial⟩
  | copying =>
    rcases copied : D.copy w.world shared with ⟨panic | failure | scratch, after⟩
    · simp only [step, copied]
      exact ⟨fits, trivial⟩
    · simp only [step, copied]
      exact ⟨fits, trivial⟩
    · simp only [step, copied]
      exact ⟨fits, keeps.start _ _ _ _ _ fits⟩
  | solving session rest =>
    rcases moved : D.advance session stopped shared with
      ⟨⟨later, rest⟩ | ⟨result, solver, backend⟩, after⟩
    · simp only [step, moved]
      exact ⟨fits, keeps.goesOn _ _ _ _ _ _ sounds moved⟩
    · simp only [step, moved]
      exact ⟨keeps.ends _ _ _ _ _ _ _ sounds moved, trivial⟩
  | finished | died => exact ⟨fits, trivial⟩

end Keeps

namespace Machine

section Moves

variable {m effect next : Machine D} {index : Nat} {problem : D.Problem} {event : Event D}
  {before after : CallPhase D} {fit : D.Solver → Prop} {sound : D.Session → Prop}

/-! ## Solvers stay fit -/

theorem forall_mem_modify {α : Type} {P : α → Prop} {change : α → α} {entries : List α}
    (all : ∀ entry ∈ entries, P entry) (index : Nat)
    (kept : ∀ entry, entries[index]? = some entry → P (change entry)) :
    ∀ entry ∈ entries.modify index change, P entry := by
  intro entry listed
  obtain ⟨i, there⟩ := List.getElem?_of_mem listed
  rw [List.getElem?_modify] at there
  split at there
  next same =>
    obtain ⟨former, found, rfl⟩ := Option.map_eq_some_iff.mp there
    exact kept former (same ▸ found)
  next =>
    rw [Option.map_eq_map, Option.map_id'] at there
    exact all entry (List.mem_of_getElem? there)

theorem CallMove.stays_fit (move : CallMove m index problem event before effect after)
    (whole : m.Fit fit sound) : effect.Fit fit sound := by
  have kept (slot : Nat) (busy : Bool) : ∀ entry ∈ (m.setBusy slot busy).slots,
      fit entry.worker.solver :=
    forall_mem_modify whole.slots slot fun entry there =>
      whole.slots entry (List.mem_of_getElem? there)
  cases move with
  | claims | handsBack | notStarted | declined => exact ⟨kept _ _, whole.threads⟩
  | launches =>
    refine ⟨whole.slots, fun thread listed => ?_⟩
    rcases List.mem_append.mp listed with listed | new
    · exact whole.threads thread listed
    · rw [List.mem_singleton.mp new]
      trivial
  | _ => exact ⟨whole.slots, whole.threads⟩

theorem ThreadMove.stays_fit (keeps : D.Keeps fit sound) {thread : Thread D} {housed : Slot D}
    {phase later : ThreadPhase D} (move : ThreadMove m index thread housed phase effect later)
    (whole : m.Fit fit sound) (located : m.slots[thread.slot]? = some housed)
    (sounds : phase.Sound sound) :
    (∀ slot ∈ effect.slots, fit slot.worker.solver) ∧ later.Sound sound := by
  have fits := whole.slots housed (List.mem_of_getElem? located)
  have kept (entry : Slot D) (there : m.slots[thread.slot]? = some entry) :=
    whole.slots entry (List.mem_of_getElem? there)
  cases move with
  | locks | finishes | dies | frees => exact ⟨forall_mem_modify whole.slots _ kept, trivial⟩
  | runs =>
    have stepped := housed.worker.step_sound keeps thread.problem
      (m.flags.isStopped thread.token) m.shared fits sounds
    exact ⟨forall_mem_modify whole.slots _ fun _ _ => stepped.1, stepped.2⟩
  | logs | reports => exact ⟨whole.slots, trivial⟩

theorem Move.stays_fit (keeps : D.Keeps fit sound) (move : Move m event next)
    (whole : m.Fit fit sound) : next.Fit fit sound := by
  cases move with
  | arrives => exact ⟨whole.slots, whole.threads⟩
  | ofCall there move => exact ⟨(move.stays_fit whole).slots, (move.stays_fit whole).threads⟩
  | @ofThread runner thread housed effect after there located move =>
    have sounds := whole.threads thread (List.mem_of_getElem? there)
    obtain ⟨slots, sounds⟩ := move.stays_fit keeps whole located sounds
    refine ⟨slots, ?_⟩
    refine forall_mem_modify (P := fun thread : Thread D => thread.phase.Sound sound) ?_ runner
      fun _ _ => sounds
    rw [move.threads_eq]
    exact whole.threads
  | aborts => exact ⟨slots_abort m ▸ whole.slots, threads_abort m ▸ whole.threads⟩

/-! ## What a pass keeps -/

theorem up_afterClaims (claimed : List Nat) (busy : Nat) :
    (afterClaims claimed busy : CallPhase D).isDown = false := by
  cases claimed <;> cases busy <;> rfl

theorem inQuestion_afterClaims (claimed : List Nat) (busy : Nat) :
    (afterClaims claimed busy : CallPhase D).inQuestion = [] := by
  cases claimed <;> cases busy <;> rfl

variable {takes : Bool} {asked kept : List Nat}

/-- A move of a call that meets the same answer everywhere. -/
theorem CallMove.answered (move : CallMove m index problem event before effect after)
    (alike : ∀ slot ∈ m.slots, m.answer slot problem = if takes then .accepts else .refuses)
    (answered : before.Answered takes asked kept) :
    after.Answered takes (asked ++ before.asks after) (kept ++ before.keeps after) := by
  obtain ⟨up, all, keptNil⟩ := answered
  cases move with
  | claimsOver =>
    rw [asks_afterClaims, keeps_afterClaims, List.append_nil, List.append_nil]
    exact ⟨up_afterClaims .., fun yes => inQuestion_afterClaims .. ▸ all yes, keptNil⟩
  | @claims next =>
    refine ⟨rfl, fun yes => ?_, fun no => ?_⟩
    · have former : asked = kept ++ [] := all yes
      simp only [CallPhase.asks, CallPhase.keeps, CallPhase.inQuestion, List.append_nil] at former ⊢
      rw [former]
    · exact (List.append_nil kept).trans (keptNil no)
  | @accepted next claimed busy slot there unlocked yes =>
    have same := alike slot (List.mem_of_getElem? there)
    cases takes with
    | false => cases yes.symm.trans same
    | true =>
      refine ⟨rfl, fun _ => ?_, Bool.noConfusion⟩
      have former : asked = kept ++ [next] := all rfl
      simp only [CallPhase.asks, CallPhase.keeps, CallPhase.inQuestion, List.append_nil,
        List.drop_left, former]
  | @declined next claimed busy slot there unlocked no =>
    have same := alike slot (List.mem_of_getElem? there)
    cases takes with
    | true => cases no.symm.trans same
    | false =>
      refine ⟨rfl, Bool.noConfusion, fun _ => ?_⟩
      simp only [CallPhase.keeps, List.drop_length, List.append_nil, keptNil rfl]
  | @undecided _ _ _ slot there _ unclear | @panics _ _ _ slot _ there _ unclear =>
    have same := unclear.symm.trans (alike slot (List.mem_of_getElem? there))
    cases takes <;> cases same
  | leaves =>
    simp only [CallPhase.asks, CallPhase.keeps, List.append_nil]
    exact ⟨up, all, keptNil⟩
  | _ =>
    simp only [CallPhase.asks, CallPhase.keeps, List.append_nil]
    exact ⟨rfl, all, keptNil⟩

theorem Move.answered (move : Move m event next) {phase : CallPhase D}
    (alike : ∀ slot ∈ m.slots, m.answer slot problem = if takes then .accepts else .refuses)
    (there : m.calls[index]? = some ⟨problem, phase⟩)
    (answered : phase.Answered takes asked kept) :
    ∃ later, next.calls[index]? = some ⟨problem, later⟩ ∧
      later.Answered takes (asked ++ m.transition CallPhase.asks index event next)
        (kept ++ m.transition CallPhase.keeps index event next) := by
  by_cases own : event.party? = some (.call index)
  · obtain ⟨_, before, effect, after, placed, own, rfl⟩ := move.exists_callMove own
    cases there.symm.trans placed
    refine ⟨after, calls_setCall_self own.calls_eq there .., ?_⟩
    rw [transition_own there own, transition_own there own]
    exact own.answered alike answered
  · refine ⟨phase, move.calls_eq there own, ?_⟩
    rw [transition_other own, transition_other own, List.append_nil, List.append_nil]
    exact answered

end Moves

section Run

variable {start m later : Machine D} {index : Nat} {problem : D.Problem}
  {events during : List (Event D)} {phase : CallPhase D} {takes : Bool}
  {fit : D.Solver → Prop} {sound : D.Session → Prop} (keeps : D.Keeps fit sound)
  (alike : ∀ solver shared, fit solver →
    (D.asks solver problem shared).1 = if takes then .accepts else .refuses)

include keeps in
theorem fit_of_steps (whole : start.Fit fit sound) (run : start.steps events = some m) :
    m.Fit fit sound := by
  induction events, m, run using steps_induction with
  | nothing => exact whole
  | more events m event next run step ih => exact (move_of_step step).stays_fit keeps ih

include keeps alike in
/-- A call that meets the same answer everywhere keeps all that it asks, or nothing. -/
theorem answered_of_steps (whole : start.Fit fit sound)
    (there : start.calls[index]? = some ⟨problem, .arriving⟩)
    (run : start.steps events = some m) :
    ∃ phase, m.calls[index]? = some ⟨problem, phase⟩ ∧
      phase.Answered takes (start.askedBy index events) (start.keptBy index events) := by
  induction events, m, run using steps_induction with
  | nothing => exact ⟨.arriving, there, rfl, fun _ => rfl, fun _ => rfl⟩
  | more events m event next run step ih =>
    obtain ⟨phase, there, answered⟩ := ih
    have fits := fit_of_steps keeps whole run
    simp only [askedBy, keptBy, record_concat run step]
    exact (move_of_step step).answered
      (fun slot listed => alike _ _ (fits.slots slot listed)) there answered

end Run

/-! ## The way through a pass -/

section Way

variable {m effect next : Machine D} {left : List Nat} {index : Nat} {problem : D.Problem}
  {event : Event D} {before after : CallPhase D}

/-- A call that is not passing has no step of its pass left. -/
theorem CallPhase.passLeft_eq_zero (finished : before.isPassing = false) (size : Nat) :
    before.passLeft size = 0 := by
  cases before with
  | waiting | claiming | asking => cases finished
  | _ => rfl

theorem over_afterClaims (claimed : List Nat) (busy : Nat) :
    (afterClaims claimed busy : CallPhase D).isPassing = false := by
  cases claimed <;> cases busy <;> rfl

/-- Each step of a pass is its last or leaves fewer, if workers make up their minds. -/
theorem CallMove.over_or_fewer (move : CallMove m index problem event before effect after)
    (passing : before.isPassing = true)
    (decided : ∀ solver problem shared, (D.asks solver problem shared).1 ≠ .undecided) :
    after.isPassing = false ∨ after.passLeft m.slots.length < before.passLeft m.slots.length := by
  cases move with
  | waited | expires => exact .inr (Nat.lt_succ_self _)
  | claimsOver => exact .inl (over_afterClaims ..)
  | passesOver there | claims there | accepted there | declined there =>
    have below := (List.getElem?_eq_some_iff.mp there).1
    simp only [CallPhase.passLeft]
    exact .inr (by omega)
  | undecided _ _ unclear => exact absurd unclear (decided _ _ _)
  | panics => exact .inl rfl
  | _ => cases passing

/-- A call comes to the end of its pass by its own steps, if workers make up their minds. -/
theorem Balanced.comes_over (balanced : Balanced m left)
    (decided : ∀ solver problem shared, (D.asks solver problem shared).1 ≠ .undecided) :
    ∃ own last, (∀ event ∈ own, event.party? = some (.call index)) ∧ m.steps own = some last ∧
      (last.phaseOf index).isPassing = false := by
  obtain ⟨own, last, owns, run, -, finished⟩ := exists_steps_of_measure
    (fun event => event.party? = some (.call index)) (fun m => ∃ left, Balanced m left)
    (fun m => (m.phaseOf index).isPassing = false)
    (fun m => (m.phaseOf index).passLeft m.slots.length + (m.phaseOf index).isPassing.toNat) (by
      rintro m ⟨left, balanced⟩ passing
      have passing := Bool.eq_true_of_not_eq_false passing
      have flying : m.InFlight index := by
        refine inFlight_iff.mpr ?_
        cases phase : m.phaseOf index with
        | arriving | ended =>
          rw [phase] at passing
          cases passing
        | _ => rfl
      obtain ⟨event, next, own, step⟩ := balanced.exists_step_of_flight flying
      have move := move_of_step step
      refine ⟨event, next, own, step, ⟨_, balanced.move move⟩, ?_⟩
      obtain ⟨problem, before, effect, after, there, mine, rfl⟩ := move.exists_callMove own
      rw [phaseOf_eq there] at passing ⊢
      simp only [phaseOf_setCall_self mine.calls_eq there, move.length_slots, passing,
        Bool.toNat_true]
      rcases mine.over_or_fewer passing decided with finished | fewer
      · rw [CallPhase.passLeft_eq_zero finished, finished]
        exact Nat.succ_pos _
      · have most := Bool.toNat_le after.isPassing
        omega)
    ⟨left, balanced⟩
  exact ⟨own, last, owns, run, finished⟩

/-- A call that leaves has one step to take. -/
theorem exists_ending_of_leaving {ending : Ending D.Artifact}
    (there : m.phaseOf index = .leaving ending) :
    ∃ last, m.step (.call index) = some last ∧ last.ending? index = some ending := by
  have placed : m.calls[index]? ≠ none := by
    intro missing
    rw [phaseOf, missing] at there
    cases there
  obtain ⟨⟨problem, phase⟩, placed⟩ := Option.ne_none_iff_exists'.mp placed
  obtain rfl := (phaseOf_eq placed).symm.trans there
  have step : m.step (.call index) = some (m.endFlight.setCall index (.ended ending)) := by
    simp [step, stepCall, placed]
  exact ⟨_, step, (ends_of_leaving there step).1⟩

/-- A call that is on its way back when it has taken some steps comes back by its own steps. -/
theorem exists_steps_home {own : List (Event D)} {ending : Ending D.Artifact}
    (owns : ∀ event ∈ own, event.party? = some (.call index)) (run : m.steps own = some next)
    (home : next.phaseOf index = .leaving ending ∨ next.phaseOf index = .ended ending) :
    ∃ own last, (∀ event ∈ own, event.party? = some (.call index)) ∧ m.steps own = some last ∧
      last.ending? index = some ending := by
  rcases home with leaving | ended
  · obtain ⟨last, step, ended⟩ := exists_ending_of_leaving leaving
    refine ⟨own ++ [.call index], last, fun event listed => ?_, steps_concat run step, ended⟩
    rcases List.mem_append.mp listed with listed | same
    · exact owns event listed
    · rw [List.mem_singleton.mp same]
      rfl
  · exact ⟨own, next, owns, run, ending_of_phaseOf ended⟩

end Way

/-! ## The first race -/

section First

variable {workers : List (Worker D)} {waits : Waits} {logs : Bool} {shared : σ}
  {start m later : Machine D} {index : Nat} {problem : D.Problem} {events during : List (Event D)}

/-- As long as no party moves there are no threads, no slot is marked and no race is in flight. -/
theorem quiet_of_steps (run : start.steps events = some m)
    (nobody : ∀ event ∈ events, event.party? = none) :
    m.slots = start.slots ∧ m.threads = start.threads ∧ m.flight = start.flight := by
  induction events, m, run using steps_induction with
  | nothing => exact ⟨rfl, rfl, rfl⟩
  | more events m event next run step ih =>
    obtain ⟨slots, threads, flight⟩ := ih fun event listed =>
      nobody event (List.mem_append_left _ listed)
    have still := nobody event (List.mem_append_right _ (List.mem_singleton_self event))
    rw [← slots, ← threads, ← flight]
    cases move_of_step step with
    | arrives => exact ⟨rfl, rfl, rfl⟩
    | ofCall there move => cases move.party_eq.symm.trans still
    | ofThread => cases still
    | aborts => exact ⟨slots_abort m, threads_abort m, flight_abort m⟩

/-- The first race of a pool passes over no slot, if panics are contained. -/
theorem passedBy_first (contained : D.Contained)
    (run : (ofWorkers workers waits logs shared).steps events = some m)
    (nobody : ∀ event ∈ events, event.party? = none) (new : m.phaseOf index = .arriving)
    (more : m.steps (.call index :: during) = some later) :
    (later.phaseOf index).begun = true ∧ m.passedBy index (.call index :: during) = [] := by
  obtain ⟨-, threads, flight⟩ := quiet_of_steps run nobody
  have idle : m.isRacing = false := by
    rw [isRacing, flight]
    rfl
  obtain ⟨begun, found⟩ := (balanced_of_steps run).next_pass idle new more
  refine ⟨begun, List.eq_nil_iff_forall_not_mem.mpr fun slot passes => ?_⟩
  refine not_lost_of_contained contained run slot ((found slot ?_).2 passes)
  rintro ⟨runner, thread, there, -⟩
  rw [threads] at there
  cases there

variable {fit : D.Solver → Prop} {sound : D.Session → Prop} (keeps : D.Keeps fit sound)
  (contained : D.Contained) (fits : ∀ worker ∈ workers, fit worker.solver)
  (run : (ofWorkers workers waits logs shared).steps events = some m)
  (nobody : ∀ event ∈ events, event.party? = none)
  (there : m.calls[index]? = some ⟨problem, .arriving⟩)
include keeps contained fits run nobody there

theorem first_pass (takes : Bool) (alike : ∀ solver shared, fit solver →
      (D.asks solver problem shared).1 = if takes then .accepts else .refuses)
    (more : m.steps (.call index :: during) = some later) :
    let asked := m.askedBy index (.call index :: during)
    let kept := m.keptBy index (.call index :: during)
    (later.phaseOf index).begun = true ∧ (later.phaseOf index).Answered takes asked kept ∧
      (later.phaseOf index).Accounts workers.length asked kept [] := by
  intro asked kept
  have new : m.phaseOf index = .arriving := phaseOf_eq there
  obtain ⟨begun, passed_eq⟩ := passedBy_first contained run nobody new more
  have whole : (ofWorkers workers waits logs shared).Fit fit sound := by
    refine ⟨fun slot listed => ?_, nofun⟩
    obtain ⟨worker, member, rfl⟩ := List.mem_map.mp listed
    exact fits worker member
  obtain ⟨phase, now, answered⟩ :=
    answered_of_steps keeps alike (fit_of_steps keeps whole run) there more
  have account := accounts_of_arriving new more
  rw [passed_eq, length_of_steps run] at account
  rw [phaseOf_eq now] at begun account ⊢
  exact ⟨begun, answered, account⟩

/-- The first race of a pool whose workers all take its problem on claims every slot, and comes to
do so by its own steps. It does not end with nobody eligible, unless there is nobody. -/
theorem first_race_of_the_willing (accepts : ∀ solver shared, fit solver →
      (D.asks solver problem shared).1 = .accepts)
    (decided : ∀ solver problem shared, (D.asks solver problem shared).1 ≠ .undecided)
    (more : m.steps (.call index :: during) = some later) :
    ((later.phaseOf index).isPassing = false →
      m.keptBy index (.call index :: during) = List.range workers.length) ∧
    (later.ending? index = some (.outcome .noneEligible) → workers = []) ∧
    ∃ own last, (∀ event ∈ own, event.party? = some (.call index)) ∧
      later.steps own = some last ∧
      m.keptBy index (.call index :: (during ++ own)) = List.range workers.length := by
  have claims {during : List (Event D)} {later : Machine D}
      (more : m.steps (.call index :: during) = some later)
      (finished : (later.phaseOf index).isPassing = false) :
      m.keptBy index (.call index :: during) = List.range workers.length := by
    obtain ⟨begun, ⟨up, all, -⟩, account⟩ :=
      first_pass keeps contained fits run nobody there true accepts more
    have answered : (later.phaseOf index).inQuestion = [] := by
      cases phase : later.phaseOf index with
      | asking =>
        rw [phase] at finished
        cases finished
      | _ => rfl
    have same := all rfl
    rw [answered, List.append_nil] at same
    rw [← same]
    exact (CallPhase.Accounts.dealt account begun up finished).eq_range
  refine ⟨claims more, fun ended => ?_, ?_⟩
  · have phase := phaseOf_of_ending ended
    obtain ⟨-, -, account⟩ := first_pass keeps contained fits run nobody there true accepts more
    rw [phase, claims more (by rw [phase]; rfl)] at account
    exact List.length_eq_zero_iff.mp (List.range_eq_nil.mp account.2.1)
  have balanced := (balanced_of_steps run).steps more
  obtain ⟨own, last, owns, goesOn, finished⟩ := balanced.comes_over decided
  refine ⟨own, last, owns, goesOn, claims ?_ finished⟩
  rw [← List.cons_append, steps_append, more]
  exact goesOn

/-- The first race of a pool of which no worker takes its problem on ends with nobody eligible, and
comes to do so by its own steps. -/
theorem first_race_of_the_unwilling (refuses : ∀ solver shared, fit solver →
      (D.asks solver problem shared).1 = .refuses)
    (decided : ∀ solver problem shared, (D.asks solver problem shared).1 ≠ .undecided)
    (more : m.steps (.call index :: during) = some later) :
    m.keptBy index (.call index :: during) = [] ∧
    (∀ ending, later.ending? index = some ending → ending = .outcome .noneEligible) ∧
    ∃ own last, (∀ event ∈ own, event.party? = some (.call index)) ∧
      later.steps own = some last ∧ last.ending? index = some (.outcome .noneEligible) := by
  have declines {during : List (Event D)} {later : Machine D}
      (more : m.steps (.call index :: during) = some later) :
      m.keptBy index (.call index :: during) = [] ∧
      ((later.phaseOf index).isPassing = false →
        later.phaseOf index = .leaving (.outcome .noneEligible) ∨
          later.phaseOf index = .ended (.outcome .noneEligible)) := by
    obtain ⟨begun, ⟨up, -, keptNil⟩, account⟩ :=
      first_pass keeps contained fits run nobody there false refuses more
    have nothing := keptNil rfl
    rw [nothing] at account
    exact ⟨nothing, CallPhase.Accounts.noneEligible account begun up⟩
  obtain ⟨nothing, ends⟩ := declines more
  refine ⟨nothing, ?_, ?_⟩
  · intro ending ended
    have phase := phaseOf_of_ending ended
    rw [phase] at ends
    rcases ends rfl with same | same
    · cases same
    · exact CallPhase.ended.inj same
  · have balanced := (balanced_of_steps run).steps more
    obtain ⟨own, last, owns, goesOn, finished⟩ := balanced.comes_over decided
    have further : m.steps (.call index :: (during ++ own)) = some last := by
      rw [← List.cons_append, steps_append, more]
      exact goesOn
    exact exists_steps_home owns goesOn ((declines further).2 finished)

end First

end Machine

end MotionRace
