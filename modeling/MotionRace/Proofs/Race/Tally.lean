import MotionRace.Proofs.Race.Collecting
import MotionRace.Proofs.Race.Launches

/-!
# The tally of a race

Each launched worker has a place in which its report is waited for until the report was seen; a
failure empties the place and counts. So a race that counted as many failures as it launched has
seen every worker fail, and a race that saw a success saw that of a worker it launched.

Main statement: `tracks_of_steps`, what the phase of a call says about the workers that it launched,
as long as nobody calls the race off.
-/

namespace MotionRace

variable {σ : Type} {D : Domain σ}

theorem mem_set_none {places : List (Option Pending)} {index : Nat} {emptied pending : Pending}
    (there : places[index]? = some (some emptied)) (listed : some pending ∈ places) :
    some pending ∈ places.set index none ∨ pending = emptied := by
  obtain ⟨other, found⟩ := List.getElem?_of_mem listed
  by_cases same : index = other
  · subst same
    exact .inr (Option.some.inj (Option.some.inj (found.symm.trans there)))
  · refine .inl (List.mem_of_getElem? (i := other) ?_)
    rw [List.getElem?_set_ne same, found]

theorem countP_set_none {places : List (Option Pending)} {index : Nat} {emptied : Pending}
    (there : places[index]? = some (some emptied)) :
    (places.set index none).countP Option.isSome + 1 = places.countP Option.isSome := by
  obtain ⟨inside, found⟩ := List.getElem?_eq_some_iff.mp there
  have positive : 0 < places.countP Option.isSome :=
    List.countP_pos_iff.mpr ⟨_, List.mem_of_getElem? there, rfl⟩
  rw [List.countP_set inside, found]
  simp only [Option.isSome_some, Option.isSome_none, if_true, Bool.false_eq_true, if_false]
  omega

/-- Whether the race of a call in a phase is in flight and not decided. -/
def CallPhase.isUndecided : CallPhase D → Bool
  | .arriving => false
  | .signalling _ => false
  | .leaving _ => false
  | .ended _ => false
  | _ => true

namespace Machine

/-- The tally of a race that has launched some workers, was refused some threads and has some slots
left to launch. -/
structure Tally (m : Machine D) (index : Nat) (problem : D.Problem) (launched : List (Launch D))
    (refused left : Nat) (places : List (Option Pending)) (failures count : Nat) : Prop where
  tracked : ∀ launch ∈ launched, m.Tracked index problem launch
  placed : ∀ pending, some pending ∈ places → ∃ launch ∈ launched, pending = launch.pending
  seen : ∀ launch ∈ launched, some launch.pending ∈ places ∨ m.Failed index problem launch
  total : left + failures + places.countP Option.isSome = count
  started : count ≤ launched.length + refused + left
  raced : 0 < count

/-- What an ending says of the workers that were launched, as they would do by themselves. -/
def Justifies (m : Machine D) (index : Nat) (problem : D.Problem) (launched : List (Launch D))
    (refused : Nat) : Ending D.Artifact → Prop
  | .outcome (.succeeded worker artifact) =>
    ∃ launch ∈ launched, launch.worker.id = worker ∧
      launch.worker.Ends problem (.ok (.success artifact))
  | .outcome .allFailed =>
    (refused = 0 → launched ≠ []) ∧ ∀ launch ∈ launched, m.Failed index problem launch
  | _ => True

/-- What the phase of a call says of the workers that it launched, if nobody calls the race off. -/
def Tracks (m : Machine D) (index : Nat) (problem : D.Problem) (launched : List (Launch D))
    (refused : Nat) : CallPhase D → Prop
  | .arriving => launched = []
  | .waiting => launched = [] ∧ m.flags.isStopped m.flight.abort = false
  | .claiming .. => launched = [] ∧ m.flags.isStopped m.flight.abort = false
  | .asking .. => launched = [] ∧ m.flags.isStopped m.flight.abort = false
  | .registering claimed =>
    launched = [] ∧ m.flags.isStopped m.flight.abort = false ∧ claimed ≠ []
  | .registered claimed abort =>
    launched = [] ∧ m.flags.isStopped abort = false ∧ claimed ≠ [] ∧
      ∀ entry ∈ claimed, m.flags.isStopped entry.2 = false
  | .handingBack _ => False
  | .launching rest places failures count abort =>
    m.flags.isStopped abort = false ∧ (∀ entry ∈ rest, m.flags.isStopped entry.2 = false) ∧
      m.Tally index problem launched refused rest.length places failures count
  | .collecting c abort =>
    m.flags.isStopped abort = false ∧
      m.Tally index problem launched refused 0 c.places c.failures c.launched
  | .signalling outcome => m.Justifies index problem launched refused (.outcome outcome)
  | .leaving ending => m.Justifies index problem launched refused ending
  | .ended ending => m.Justifies index problem launched refused ending

section Tally

variable {m next : Machine D} {left : List Nat} {index refused more rest failures count : Nat}
  {problem : D.Problem} {event : Event D} {launched : List (Launch D)}
  {places : List (Option Pending)} {c : Collector} {ending : Ending D.Artifact}

theorem Justifies.mono (justifies : m.Justifies index problem launched refused ending)
    (fewer : refused ≤ more)
    (stays : ∀ launch ∈ launched, m.Failed index problem launch →
      next.Failed index problem launch) :
    next.Justifies index problem launched more ending := by
  cases ending with
  | outcome outcome =>
    cases outcome with
    | allFailed =>
      obtain ⟨raced, failed⟩ := justifies
      refine ⟨fun unrefused => raced (by omega), fun launch listed => ?_⟩
      exact stays launch listed (failed launch listed)
    | _ => exact justifies
  | _ => trivial

/-- A tally stays right while its race moves no slot and sees no report. -/
theorem Tally.mono (tally : m.Tally index problem launched refused rest places failures count)
    (fewer : refused ≤ more)
    (tracked : ∀ launch ∈ launched, m.Tracked index problem launch →
      next.Tracked index problem launch)
    (stays : ∀ launch ∈ launched, m.Failed index problem launch →
      next.Failed index problem launch) :
    next.Tally index problem launched more rest places failures count where
  tracked launch listed := tracked launch listed (tally.tracked launch listed)
  placed := tally.placed
  seen launch listed := (tally.seen launch listed).imp_right (stays launch listed)
  total := tally.total
  started := by
    have started := tally.started
    omega
  raced := tally.raced

/-- The tally before the first launch. -/
theorem tally_nil (raced : 0 < count) :
    m.Tally index problem [] refused count [] 0 count where
  tracked _ listed := absurd listed List.not_mem_nil
  placed _ listed := absurd listed List.not_mem_nil
  seen _ listed := absurd listed List.not_mem_nil
  total := by simp only [List.countP_nil, Nat.add_zero]
  started := Nat.le_add_left ..
  raced := raced

/-- One more worker is launched. -/
theorem Tally.launch {launch : Launch D}
    (tally : m.Tally index problem launched refused (rest + 1) places failures count)
    (tracked : m.Tracked index problem launch) :
    m.Tally index problem (launched ++ [launch]) refused rest (places ++ [some launch.pending])
      failures count where
  tracked other listed := by
    rcases List.mem_append.mp listed with listed | listed
    · exact tally.tracked other listed
    · rw [List.mem_singleton.mp listed]
      exact tracked
  placed pending listed := by
    rcases List.mem_append.mp listed with listed | listed
    · obtain ⟨other, listed, same⟩ := tally.placed pending listed
      exact ⟨other, List.mem_append_left _ listed, same⟩
    · exact ⟨launch, List.mem_append_right _ (List.mem_singleton_self _),
        Option.some.inj (List.mem_singleton.mp listed)⟩
  seen other listed := by
    rcases List.mem_append.mp listed with listed | listed
    · exact (tally.seen other listed).imp_left (List.mem_append_left _)
    · rw [List.mem_singleton.mp listed]
      exact .inl (List.mem_append_right _ (List.mem_singleton_self _))
  total := by
    have total := tally.total
    simp only [List.countP_append, List.countP_singleton, Option.isSome_some, if_true]
    omega
  started := by
    have started := tally.started
    simp only [List.length_append, List.length_singleton]
    omega
  raced := tally.raced

/-- One more thread is refused. -/
theorem Tally.refuse
    (tally : m.Tally index problem launched refused (rest + 1) places failures count) :
    m.Tally index problem launched (refused + 1) rest places (failures + 1) count :=
  { tally with
    total := by
      have total := tally.total
      omega
    started := by
      have started := tally.started
      omega }

/-- One more worker is seen to have failed. -/
theorem Tally.drop {place : Nat} {pending : Pending}
    (tally : m.Tally index problem launched refused rest places failures count)
    (there : places[place]? = some (some pending))
    (failed : ∀ launch ∈ launched, pending = launch.pending → m.Failed index problem launch) :
    m.Tally index problem launched refused rest (places.set place none) (failures + 1) count :=
  { tally with
    placed := fun other listed => by
      rcases List.mem_or_eq_of_mem_set listed with listed | emptied
      · exact tally.placed other listed
      · cases emptied
    seen := fun launch listed => by
      rcases tally.seen launch listed with waits | fails
      · exact (mem_set_none there waits).imp_right fun same => failed launch listed same.symm
      · exact .inr fails
    total := by
      have total := tally.total
      have fewer := countP_set_none there
      omega }

/-- A race that counted as many failures as it launched has seen every worker fail. -/
theorem Tally.allFailed (tally : m.Tally index problem launched refused 0 places failures count)
    (lost : failures = count) :
    (refused = 0 → launched ≠ []) ∧ ∀ launch ∈ launched, m.Failed index problem launch := by
  have total := tally.total
  have started := tally.started
  have raced := tally.raced
  constructor
  · rintro rfl rfl
    simp only [List.length_nil] at started
    omega
  · intro launch listed
    refine (tally.seen launch listed).resolve_left fun waits => ?_
    have positive : 0 < places.countP Option.isSome := List.countP_pos_iff.mpr ⟨_, waits, rfl⟩
    omega

end Tally

section Moves

variable {m next effect : Machine D} {left : List Nat} {index refused more : Nat}
  {problem : D.Problem} {event : Event D} {before after phase : CallPhase D}
  {launched : List (Launch D)}

theorem launchesOf_eq_nil (now : m.phaseOf index = phase) (quiet : phase.isLaunching = false) :
    launchesOf index m event next = [] := by
  unfold launchesOf
  rw [now]
  cases event with
  | call mover =>
    cases phase with
    | launching => cases quiet
    | _ => rfl
  | _ => rfl

theorem launchesOf_other (other : event.party? ≠ some (.call index)) :
    launchesOf index m event next = [] := by
  unfold launchesOf
  split
  · refine if_neg ?_
    rintro rfl
    exact other rfl
  · rfl

theorem isRefusal_other (other : event.party? ≠ some (.call index)) :
    event.isRefusal index = false := by
  cases event with
  | refuse mover =>
    refine beq_false_of_ne ?_
    rintro rfl
    exact other rfl
  | _ => rfl

/-- What a call says of its workers stays true while nothing happens to them but their own way. -/
theorem Tracks.mono (tracks : m.Tracks index problem launched refused phase)
    (fewer : refused ≤ more)
    (calm : phase.isUndecided = true → ∀ token,
      next.flags.isStopped token = m.flags.isStopped token)
    (same : phase.inFlight = true → next.flight.abort = m.flight.abort)
    (tracked : phase.isUndecided = true → ∀ launch, m.Tracked index problem launch →
      next.Tracked index problem launch)
    (stays : ∀ launch, m.Failed index problem launch → next.Failed index problem launch) :
    next.Tracks index problem launched more phase := by
  cases phase with
  | arriving => exact tracks
  | waiting | claiming | asking =>
    obtain ⟨unlaunched, unstopped⟩ := tracks
    refine ⟨unlaunched, ?_⟩
    rw [same rfl, calm rfl]
    exact unstopped
  | registering claimed =>
    obtain ⟨unlaunched, unstopped, raced⟩ := tracks
    refine ⟨unlaunched, ?_, raced⟩
    rw [same rfl, calm rfl]
    exact unstopped
  | registered claimed abort =>
    obtain ⟨unlaunched, unstopped, raced, fresh⟩ := tracks
    exact ⟨unlaunched, (calm rfl _).trans unstopped, raced,
      fun entry listed => (calm rfl _).trans (fresh entry listed)⟩
  | handingBack => exact tracks.elim
  | launching rest places failures count abort =>
    obtain ⟨unstopped, fresh, tally⟩ := tracks
    exact ⟨(calm rfl _).trans unstopped,
      fun entry listed => (calm rfl _).trans (fresh entry listed),
      tally.mono fewer (fun launch _ => tracked rfl launch) fun launch _ => stays launch⟩
  | collecting c abort =>
    obtain ⟨unstopped, tally⟩ := tracks
    exact ⟨(calm rfl _).trans unstopped,
      tally.mono fewer (fun launch _ => tracked rfl launch) fun launch _ => stays launch⟩
  | signalling | leaving | ended =>
    exact Justifies.mono tracks fewer fun launch _ => stays launch

/-- While a race is undecided, a step other than an abort raises no flag. -/
theorem Balanced.calm (balanced : Balanced m left) (move : Move m event next)
    (calm : event ≠ .abort) (undecided : (m.phaseOf index).isUndecided = true) (token : Token) :
    next.flags.isStopped token = m.flags.isStopped token := by
  have flying : m.InFlight index := by
    rw [inFlight_iff]
    cases phase : m.phaseOf index with
    | arriving | ended => simp [phase, CallPhase.isUndecided] at undecided
    | _ => rfl
  refine balanced.isStopped_eq move calm flying (fun outcome signals => ?_) token
  rw [signals] at undecided
  cases undecided

/-- A worker that is about to be launched is there. -/
theorem Balanced.exists_worker (balanced : Balanced m left) {slot : Nat} {token : Token}
    {rest : List (Nat × Token)} {places : List (Option Pending)} {failures count : Nat}
    {abort : Token} (there : m.calls[index]? =
      some ⟨problem, .launching ((slot, token) :: rest) places failures count abort⟩) :
    ∃ worker, m.workerOf slot = some worker := by
  have holds : m.Holds (.call index) slot := ⟨_, there, List.mem_cons_self ..⟩
  have busy := (balanced.busy_of_holds holds).1
  cases housed : m.slots[slot]? with
  | none => simp [isBusy, housed] at busy
  | some entry => exact ⟨entry.worker, by simp [workerOf, housed]⟩

/-- What a call has just seen of its workers is what they come to by themselves. -/
theorem Tally.decided {c : Collector} {calledOff : Bool} {outcome : Outcome D.Artifact}
    (tally : m.Tally index problem launched refused 0 c.places c.failures c.launched)
    (unstopped : calledOff = false) (decided : c.step calledOff m.look = .decided outcome) :
    m.Justifies index problem launched refused (.outcome outcome) := by
  rcases Collector.decided_cases decided with ⟨-, stopped⟩ | ⟨rfl, lost, -⟩ |
    ⟨place, pending, artifact, rfl, there, seen⟩
  · exact absurd stopped (ne_true_of_eq_false unstopped)
  · exact tally.allFailed lost
  · obtain ⟨launch, listed, rfl⟩ := tally.placed pending (List.mem_of_getElem? there.2)
    exact ⟨launch, listed, rfl, (tally.tracked launch listed).ends_of_look seen⟩

theorem Tally.goesOn {c after : Collector} {calledOff : Bool}
    (tally : m.Tally index problem launched refused 0 c.places c.failures c.launched)
    (looked : c.step calledOff m.look = .goesOn after) :
    m.Tally index problem launched refused 0 after.places after.failures after.launched := by
  rcases Collector.goesOn_cases looked with ⟨-, -, rfl⟩ | ⟨place, rfl⟩ |
    ⟨place, pending, rfl, there, seen⟩
  · exact tally
  · exact tally
  · refine tally.drop there.2 fun launch listed same => ?_
    subst same
    exact (tally.tracked launch listed).failed_of_look seen

/-- What a call says of its workers stays true when it moves. -/
theorem CallMove.tracks (move : CallMove m index problem event before effect after)
    (unshared : D.Unshared) (balanced : Balanced m left)
    (there : m.calls[index]? = some ⟨problem, before⟩)
    (tracks : m.Tracks index problem launched refused before) :
    (effect.setCall index after).Tracks index problem
      (launched ++ launchesOf index m event (effect.setCall index after))
      (refused + (event.isRefusal index).toNat) after := by
  have step : Move m event (effect.setCall index after) := .ofCall there move
  have now : m.phaseOf index = before := phaseOf_eq there
  -- What a phase says survives the move, if the race was undecided and in flight all along.
  have carry {phase : CallPhase D}
      (undecided : phase.isUndecided = true → before.isUndecided = true)
      (flying : phase.inFlight = true → before.inFlight = true)
      (here : m.Tracks index problem launched refused phase) :
      (effect.setCall index after).Tracks index problem launched refused phase := by
    have calm (open_ : phase.isUndecided = true) (token : Token) :=
      balanced.calm step move.ne_abort (now ▸ undecided open_) token
    refine here.mono (Nat.le_refl _) calm (fun flies => step.abort_eq ?_)
      (fun open_ launch tracked => tracked.move unshared balanced step (calm open_))
      fun launch failed => failed.move step
    exact balanced.racing_iff.mpr ⟨index, _, there, flying flies⟩
  cases move with
  | turnedAway | panics => exact trivial
  | begins | beginsAtOnce =>
    rw [launchesOf_eq_nil now rfl, List.append_nil]
    exact ⟨tracks, Flags.isStopped_fresh _⟩
  | waited | expires | passesOver | claims | accepted | declined | undecided =>
    rw [launchesOf_eq_nil now rfl, List.append_nil]
    exact carry (fun _ => rfl) (fun _ => rfl) tracks
  | @claimsOver next claimed busy =>
    rw [launchesOf_eq_nil now rfl, List.append_nil]
    cases claimed with
    | nil => cases busy <;> exact trivial
    | cons first rest =>
      exact carry (fun _ => rfl) (fun _ => rfl) ⟨tracks.1, tracks.2, List.cons_ne_nil first rest⟩
  | @registers claimed =>
    rw [launchesOf_eq_nil now rfl, List.append_nil]
    obtain ⟨unlaunched, unstopped, raced⟩ := tracks
    refine carry (fun _ => rfl) (fun _ => rfl) ⟨unlaunched, unstopped, ?_, fun entry listed => ?_⟩
    · intro nothing
      exact raced ((map_fst_zip_newTokens m claimed).symm.trans (congrArg _ nothing))
    · exact Flags.isStopped_of_mem_freshMany (List.of_mem_zip listed).2
  | calledOff stopped => exact absurd stopped (ne_true_of_eq_false tracks.2.1)
  | goesAhead =>
    rw [launchesOf_eq_nil now rfl, List.append_nil]
    obtain ⟨rfl, unstopped, raced, fresh⟩ := tracks
    exact carry (fun _ => rfl) (fun _ => rfl)
      ⟨unstopped, fresh, tally_nil (List.length_pos_iff.mpr raced)⟩
  | handedBack | handsBack => exact tracks.elim
  | launched =>
    rw [show launchesOf index m _ _ = [] by unfold launchesOf; rw [now], List.append_nil]
    exact carry (fun _ => rfl) (fun _ => rfl) ⟨tracks.1, tracks.2.2⟩
  | @launches slot token rest places failures count abort =>
    obtain ⟨worker, housed⟩ := balanced.exists_worker there
    obtain ⟨unstopped, fresh, tally⟩ := carry (fun _ => rfl) (fun _ => rfl) tracks
    have tracked := tracked_addThread index problem housed
      (tracks.2.1 _ (List.mem_cons_self ..))
      (.launching rest (places ++ [m.nextPlace slot]) failures count abort)
    have grown := tally.launch tracked
    rw [← nextPlace_eq housed] at grown
    rw [launchesOf_launching now housed]
    exact ⟨unstopped, fun entry listed => fresh entry (List.mem_cons_of_mem _ listed), grown⟩
  | @notStarted slot token rest places failures count abort =>
    obtain ⟨unstopped, fresh, tally⟩ := carry (fun _ => rfl) (fun _ => rfl) tracks
    rw [show (Event.refuse index : Event D).isRefusal index = true from beq_self_eq_true index,
      show launchesOf index m (.refuse index) _ = [] from rfl, List.append_nil]
    exact ⟨unstopped, fun entry listed => fresh entry (List.mem_cons_of_mem _ listed), tally.refuse⟩
  | collects looked =>
    rw [launchesOf_eq_nil now rfl, List.append_nil]
    exact carry (fun _ => rfl) (fun _ => rfl) ⟨tracks.1, tracks.2.goesOn looked⟩
  | loses decided | decides decided =>
    rw [launchesOf_eq_nil now rfl, List.append_nil]
    exact carry Bool.noConfusion (fun _ => rfl) (tracks.2.decided tracks.1 decided)
  | signals | leaves =>
    rw [launchesOf_eq_nil now rfl, List.append_nil]
    exact carry Bool.noConfusion (fun _ => rfl) tracks

/-- Only its own moves change a call. -/
theorem Move.calls_eq {call : Call D} (move : Move m event next)
    (there : m.calls[index]? = some call) (other : event.party? ≠ some (.call index)) :
    next.calls[index]? = some call := by
  cases move with
  | arrives =>
    have inside := (List.getElem?_eq_some_iff.mp there).1
    rw [List.getElem?_append_left inside, there]
  | @ofCall mover _ _ _ _ _ _ move =>
    have apart : mover ≠ index := by
      rintro rfl
      exact other move.party_eq
    rw [calls_setCall_ne move.calls_eq apart, there]
  | @ofThread _ _ _ effect _ _ _ move =>
    change effect.calls[index]? = some call
    rw [move.calls_eq, there]
  | aborts => rw [calls_abort, there]

/-- What a call says of its workers stays true at every step but an abort. -/
theorem Balanced.tracks (balanced : Balanced m left) (unshared : D.Unshared)
    (move : Move m event next) (calm : event ≠ .abort)
    (there : m.calls[index]? = some ⟨problem, phase⟩)
    (tracks : m.Tracks index problem launched refused phase) :
    ∃ after, next.calls[index]? = some ⟨problem, after⟩ ∧
      next.Tracks index problem (launched ++ launchesOf index m event next)
        (refused + (event.isRefusal index).toNat) after := by
  by_cases own : event.party? = some (.call index)
  · obtain ⟨_, _, effect, after, placed, own, rfl⟩ := move.exists_callMove own
    cases placed.symm.trans there
    exact ⟨after, calls_setCall_self own.calls_eq there after,
      own.tracks unshared balanced there tracks⟩
  · refine ⟨phase, move.calls_eq there own, ?_⟩
    rw [launchesOf_other own, isRefusal_other own, List.append_nil]
    have now : m.phaseOf index = phase := phaseOf_eq there
    have still (undecided : phase.isUndecided = true) (token : Token) :=
      balanced.calm move calm (now.symm ▸ undecided) token
    refine tracks.mono (Nat.le_refl _) still (fun flies => move.abort_eq ?_)
      (fun undecided launch tracked => tracked.move unshared balanced move (still undecided))
      fun launch failed => failed.move move
    exact balanced.racing_iff.mpr ⟨index, _, there, flies⟩

/-- What a call says of its workers is true at every moment, if nobody calls the race off. -/
theorem tracks_of_steps {start : Machine D} (balanced : Balanced start left)
    (unshared : D.Unshared) (new : start.calls[index]? = some ⟨problem, .arriving⟩)
    {events : List (Event D)} (calm : ∀ event ∈ events, event ≠ .abort)
    (run : start.steps events = some m) :
    ∃ phase, m.calls[index]? = some ⟨problem, phase⟩ ∧
      m.Tracks index problem (start.record (launchesOf index) events)
        (events.countP (Event.isRefusal index)) phase := by
  induction events, m, run using steps_induction with
  | nothing => exact ⟨.arriving, new, rfl⟩
  | more events m event next run step ih =>
    have former := fun other listed => calm other (List.mem_append_left [event] listed)
    have last := calm event (List.mem_append_right events (List.mem_singleton_self event))
    obtain ⟨phase, there, tracks⟩ := ih former
    rw [record_concat run step, List.countP_append, List.countP_singleton, ← Bool.cond_eq_ite]
    exact (balanced.steps run).tracks unshared (move_of_step step) last there tracks

end Moves

end Machine

end MotionRace
