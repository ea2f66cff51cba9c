import Mathlib.Logic.Relation
import MotionRace.Proofs.Race.Tokens

/-!
# Who shares a stop flag

Somebody holds a list of tokens and one bridge. Tokens are made, cloned, registered and stopped in
any order, and the bridge is given up for a new one now and then. Nobody sees the flags; what can be
told is which token was cloned from which, and what was stopped when.

This is enough. Two tokens name the same flag exactly if cloning joins them (`family_iff`), so a
token is stopped exactly if its family was: by a stop of one of its tokens, or by a signal of the
bridge that the family was registered with. A bridge that was given up reaches nobody any more, and
what it signalled before stays stopped.

Main statement: `stopped_with_its_family`.
-/

namespace MotionRace

/-- What can be done with some tokens and a bridge. -/
inductive Handling where
  /-- Add a new token. -/
  | make
  /-- Add a clone of the token at a place. -/
  | clone (place : Nat)
  /-- Register with the bridge and add the token it gives. -/
  | register
  /-- Stop the token at a place. -/
  | stop (place : Nat)
  /-- Signal all tokens of the bridge. -/
  | stopAll
  /-- Take a new bridge. -/
  | replace
  deriving Repr, DecidableEq

/-- The tokens that somebody holds, in the order they were added, and a bridge. -/
structure Handles where
  flags : Flags := {}
  tokens : List Token := []
  bridge : Bridge := {}
  deriving Repr, DecidableEq

namespace Handles

/-- One thing done. Without a token at its place it cannot be done. -/
def step (h : Handles) : Handling → Option Handles
  | .make =>
    let (token, flags) := h.flags.fresh
    some { h with flags, tokens := h.tokens ++ [token] }
  | .clone place => h.tokens[place]?.map fun token => { h with tokens := h.tokens ++ [token] }
  | .register =>
    let (token, bridge, flags) := h.bridge.register h.flags
    some { flags, bridge, tokens := h.tokens ++ [token] }
  | .stop place => h.tokens[place]?.map fun token => { h with flags := h.flags.request token }
  | .stopAll => some { h with flags := (h.bridge.stopAll h.flags).2 }
  | .replace => some { h with bridge := {} }

/-- Many things done, one after another. -/
def steps (h : Handles) (history : List Handling) : Option Handles := history.foldlM step h

/-- Whether there is a token at a place, and it is stopped. -/
def isStoppedAt (h : Handles) (place : Nat) : Bool := h.tokens[place]?.any h.flags.isStopped

end Handles

/-! ## What a history tells -/

namespace Handling

/-- Whether something adds a token. -/
def adds : Handling → Bool
  | .make | .clone _ | .register => true
  | _ => false

/-- The number of tokens that a history adds. It is the place of the next one. -/
def made (history : List Handling) : Nat := history.countP adds

/-- Whether the token at `copy` was added as a clone of the one at `origin`. -/
def IsClone (history : List Handling) (origin copy : Nat) : Prop :=
  ∃ earlier, earlier ++ [.clone origin] <+: history ∧ made earlier = copy

/-- Whether cloning joins two tokens, in whatever direction and over however many clones. -/
def Family (history : List Handling) : Nat → Nat → Prop := Relation.EqvGen (IsClone history)

/-- Whether one of some places had its token stopped. -/
def AskedToStop (history : List Handling) (places : Nat → Prop) : Prop :=
  ∃ earlier place, earlier ++ [.stop place] <+: history ∧ places place

/-- Whether what was done after `earlier` was a registration with the bridge that is still in
use. -/
def IsRegistered (history earlier : List Handling) : Prop :=
  ∃ between, history = earlier ++ .register :: between ∧ .replace ∉ between

/-- Whether the bridge was signalled while it had registered one of some places. -/
def Signalled (history : List Handling) (places : Nat → Prop) : Prop :=
  ∃ before earlier, before ++ [.stopAll] <+: history ∧ IsRegistered before earlier ∧
    places (made earlier)

/-- The number of registrations with the bridge that is in use. -/
def registered (history : List Handling) : Nat :=
  (history.reverse.takeWhile (· ≠ .replace)).count .register

section Histories

variable {history earlier : List Handling} {op last : Handling} {places : Nat → Prop}

@[simp] theorem made_concat :
    made (history ++ [op]) = made history + if op.adds then 1 else 0 := by
  simp [made, List.countP_append, List.countP_singleton]

theorem concat_prefix_concat : earlier ++ [op] <+: history ++ [last] ↔
    earlier ++ [op] <+: history ∨ earlier = history ∧ op = last := by
  rw [List.prefix_concat_iff, or_comm]
  refine or_congr_right ⟨fun same => ?_, fun ⟨same, also⟩ => by rw [same, also]⟩
  obtain ⟨same, also⟩ := List.append_inj' same rfl
  exact ⟨same, List.singleton_inj.mp also⟩

theorem isClone_concat {origin copy : Nat} : IsClone (history ++ [op]) origin copy ↔
    IsClone history origin copy ∨ op = .clone origin ∧ made history = copy := by
  simp only [IsClone, concat_prefix_concat, or_and_right, exists_or, and_assoc, exists_eq_left]
  exact or_congr_right (and_congr_left' eq_comm)

theorem askedToStop_concat : AskedToStop (history ++ [op]) places ↔
    AskedToStop history places ∨ ∃ place, op = .stop place ∧ places place := by
  simp only [AskedToStop, concat_prefix_concat, or_and_right, exists_or, and_assoc]
  refine or_congr_right ⟨?_, ?_⟩
  · rintro ⟨_, place, rfl, same, listed⟩
    exact ⟨place, same.symm, listed⟩
  · rintro ⟨place, same, listed⟩
    exact ⟨history, place, rfl, same.symm, listed⟩

theorem signalled_concat : Signalled (history ++ [op]) places ↔
    Signalled history places ∨
      op = .stopAll ∧ ∃ earlier, IsRegistered history earlier ∧ places (made earlier) := by
  simp only [Signalled, concat_prefix_concat, or_and_right, exists_or, and_assoc]
  refine or_congr_right ⟨?_, ?_⟩
  · rintro ⟨_, earlier, rfl, same, listed⟩
    exact ⟨same.symm, earlier, listed⟩
  · rintro ⟨same, earlier, listed⟩
    exact ⟨history, earlier, rfl, same.symm, listed⟩

theorem isRegistered_concat : IsRegistered (history ++ [op]) earlier ↔
    (op = .register ∧ earlier = history) ∨ (op ≠ .replace ∧ IsRegistered history earlier) := by
  constructor
  · rintro ⟨between, split, kept⟩
    rcases List.eq_nil_or_concat' between with rfl | ⟨rest, last, rfl⟩
    · obtain ⟨same, also⟩ := List.append_inj' split rfl
      exact .inl ⟨List.singleton_inj.mp also, same.symm⟩
    · rw [← List.cons_append, ← List.append_assoc] at split
      obtain ⟨same, also⟩ := List.append_inj' split rfl
      obtain rfl := List.singleton_inj.mp also
      rw [List.mem_append, List.mem_singleton, not_or] at kept
      exact .inr ⟨Ne.symm kept.2, rest, same, kept.1⟩
  · rintro (⟨rfl, rfl⟩ | ⟨other, between, rfl, kept⟩)
    · exact ⟨[], rfl, List.not_mem_nil⟩
    · refine ⟨between ++ [op], by simp, ?_⟩
      rw [List.mem_append, List.mem_singleton, not_or]
      exact ⟨kept, other.symm⟩

@[simp] theorem registered_concat : registered (history ++ [op]) =
    if op = .replace then 0 else registered history + if op = .register then 1 else 0 := by
  by_cases given : op = .replace
  · simp [registered, given]
  · simp [registered, given, List.count_cons]

end Histories

end Handling

namespace Handles

open Handling

variable {start h next after : Handles} {history more earlier : List Handling} {op : Handling}
  {all : List Token} {token : Token} {i j : Nat}

theorem steps_append (h : Handles) (first second : List Handling) :
    h.steps (first ++ second) = (h.steps first).bind (·.steps second) :=
  List.foldlM_append

theorem steps_concat_iff : h.steps (history ++ [op]) = some after ↔
    ∃ mid, h.steps history = some mid ∧ mid.step op = some after := by
  rw [steps_append, Option.bind_eq_some_iff]
  simp only [steps, List.foldlM_cons, List.foldlM_nil, Option.bind_eq_bind, Option.pure_def,
    Option.bind_fun_some]

/-- What holds at the start and is kept by every step of a history holds at its end. -/
@[elab_as_elim]
theorem steps_induction
    {motive : (history : List Handling) → (h : Handles) → start.steps history = some h → Prop}
    (nothing : motive [] start rfl)
    (more : ∀ history h op next (run : start.steps history = some h) (step : h.step op = some next),
      motive history h run → motive (history ++ [op]) next (steps_concat_iff.mpr ⟨h, run, step⟩))
    (history : List Handling) (h : Handles) (run : start.steps history = some h) :
    motive history h run := by
  induction history using List.reverseRecOn generalizing h with
  | nil => cases run; exact nothing
  | append_singleton history op ih =>
    obtain ⟨mid, before, last⟩ := steps_concat_iff.mp run
    exact more history mid op h before last (ih mid before)

/-! ## Tokens -/

/-- A step adds a token of its own, adds one that was there, or adds none. -/
theorem step_tokens (step : h.step op = some next) :
    (next.tokens = h.tokens ++ [⟨h.flags.raised.length⟩] ∧ op.adds = true ∧
      next.flags.raised.length = h.flags.raised.length + 1) ∨
    (∃ origin token, op = .clone origin ∧ h.tokens[origin]? = some token ∧
      next.tokens = h.tokens ++ [token] ∧ next.flags = h.flags) ∨
    (next.tokens = h.tokens ∧ op.adds = false ∧
      next.flags.raised.length = h.flags.raised.length) := by
  cases op with
  | make | register =>
    cases step
    exact .inl ⟨rfl, rfl, List.length_append⟩
  | clone origin =>
    obtain ⟨token, there, rfl⟩ := Option.map_eq_some_iff.mp step
    exact .inr (.inl ⟨origin, token, rfl, there, rfl, rfl⟩)
  | stop place =>
    obtain ⟨token, there, rfl⟩ := Option.map_eq_some_iff.mp step
    exact .inr (.inr ⟨rfl, rfl, List.length_set⟩)
  | stopAll =>
    cases step
    exact .inr (.inr ⟨rfl, rfl, Flags.length_foldl_request ..⟩)
  | replace =>
    cases step
    exact .inr (.inr ⟨rfl, rfl, rfl⟩)

/-- The bridge gets what is registered, is given up, or stays as it is. -/
theorem step_bridge (step : h.step op = some next) :
    (op = .register ∧ next.tokens = h.tokens ++ [⟨h.flags.raised.length⟩] ∧
      next.bridge.tokens = h.bridge.tokens ++ [⟨h.flags.raised.length⟩]) ∨
    (op = .replace ∧ next.bridge.tokens = []) ∨
    (op ≠ .register ∧ op ≠ .replace ∧ next.bridge = h.bridge) := by
  cases op with
  | register =>
    cases step
    exact .inl ⟨rfl, rfl, rfl⟩
  | replace =>
    cases step
    exact .inr (.inl ⟨rfl, rfl⟩)
  | make | stopAll =>
    cases step
    exact .inr (.inr ⟨nofun, nofun, rfl⟩)
  | clone | stop =>
    obtain ⟨_, -, rfl⟩ := Option.map_eq_some_iff.mp step
    exact .inr (.inr ⟨nofun, nofun, rfl⟩)

theorem tokens_of_step (step : h.step op = some next) : h.tokens <+: next.tokens := by
  rcases step_tokens step with ⟨added, -⟩ | ⟨_, _, -, -, added, -⟩ | ⟨added, -⟩
  · exact added ▸ List.prefix_append ..
  · exact added ▸ List.prefix_append ..
  · exact added ▸ List.prefix_refl _

theorem getElem?_of_prefix (part : h.tokens <+: all) (there : h.tokens[i]? = some token) :
    all[i]? = some token := by
  obtain ⟨rest, rfl⟩ := part
  rw [List.getElem?_append_left (List.getElem?_eq_some_iff.mp there).1]
  exact there

theorem getElem?_concat_eq_some {tokens : List Token} {last : Token} :
    (tokens ++ [last])[i]? = some token ↔
      tokens[i]? = some token ∨ i = tokens.length ∧ last = token := by
  rcases Nat.lt_trichotomy i tokens.length with inside | rfl | beyond
  · simp [List.getElem?_append_left inside, Nat.ne_of_lt inside]
  · simp
  · have missing : tokens[i]? = none := List.getElem?_eq_none (Nat.le_of_lt beyond)
    simp [List.getElem?_append_right (Nat.le_of_lt beyond), missing, Nat.ne_of_gt beyond,
      Nat.sub_ne_zero_of_lt beyond]

/-- What a history says of the tokens at its end, but for what is stopped: there are as many as were
added, all of them name flags of the program, and the bridge holds some of them. -/
structure Kept (history : List Handling) (h : Handles) : Prop where
  count : h.tokens.length = made history
  inside : ∀ token ∈ h.tokens, token.flag < h.flags.raised.length
  reached : ∀ token ∈ h.bridge.tokens, token ∈ h.tokens
  size : h.bridge.length = registered history

theorem Kept.step (kept : Kept history h) (step : h.step op = some next) :
    Kept (history ++ [op]) next := by
  have tokens := step_tokens step
  have bridge := step_bridge step
  have held := (tokens_of_step step).subset
  constructor
  case count =>
    rw [made_concat, ← kept.count]
    rcases tokens with ⟨added, adds, -⟩ | ⟨_, _, rfl, -, added, -⟩ | ⟨added, adds, -⟩
    · rw [added, adds]
      exact List.length_append
    · rw [added]
      exact List.length_append
    · rw [added, adds]
      rfl
  case inside =>
    rcases tokens with ⟨added, -, more⟩ | ⟨_, _, -, there, added, same⟩ | ⟨added, -, same⟩
    · rw [added, more, List.forall_mem_append, List.forall_mem_singleton]
      exact ⟨fun token listed => Nat.lt_succ_of_lt (kept.inside token listed), Nat.lt_succ_self _⟩
    · rw [added, same, List.forall_mem_append, List.forall_mem_singleton]
      exact ⟨kept.inside, kept.inside _ (List.mem_of_getElem? there)⟩
    · rw [added, same]
      exact kept.inside
  case reached =>
    rcases bridge with ⟨-, added, registered⟩ | ⟨-, renewed⟩ | ⟨-, -, same⟩
    · rw [registered, added, List.forall_mem_append, List.forall_mem_singleton]
      refine ⟨fun token listed => ?_, List.mem_concat_self⟩
      exact List.mem_append_left _ (kept.reached token listed)
    · rw [renewed]
      exact List.forall_mem_nil _
    · rw [same]
      exact fun token listed => held (kept.reached token listed)
  case size =>
    rw [registered_concat, ← kept.size]
    rcases bridge with ⟨rfl, -, registered⟩ | ⟨rfl, renewed⟩ | ⟨other, goes, same⟩
    · rw [Bridge.length, registered]
      exact List.length_append
    · rw [Bridge.length, renewed]
      rfl
    · rw [same, if_neg goes, if_neg other, Nat.add_zero]

theorem kept_of_steps (run : steps {} history = some h) : Kept history h := by
  induction history, h, run using steps_induction with
  | nothing => exact ⟨rfl, nofun, nofun, rfl⟩
  | more history h op next run step ih => exact ih.step step

/-! ## Families -/

theorem family_concat (family : Family history i j) : Family (history ++ [op]) i j :=
  family.mono fun _ _ clone => isClone_concat.mpr (.inl clone)

/-- A clone is the token that it was cloned from. -/
theorem eq_of_isClone (run : steps {} history = some h) (clone : IsClone history i j) :
    ∃ token, h.tokens[i]? = some token ∧ h.tokens[j]? = some token := by
  induction history, h, run using steps_induction with
  | nothing =>
    obtain ⟨earlier, part, -⟩ := clone
    simp at part
  | more history h op next run step ih =>
    have part := tokens_of_step step
    rcases isClone_concat.mp clone with before | ⟨rfl, rfl⟩
    · obtain ⟨token, first, second⟩ := ih before
      exact ⟨token, getElem?_of_prefix part first, getElem?_of_prefix part second⟩
    · obtain ⟨token, there, rfl⟩ := Option.map_eq_some_iff.mp step
      refine ⟨token, getElem?_of_prefix part there, ?_⟩
      exact getElem?_concat_eq_some.mpr (.inr ⟨(kept_of_steps run).count.symm, rfl⟩)

theorem eq_of_family (run : steps {} history = some h) (family : Family history i j) :
    h.tokens[i]? = h.tokens[j]? := by
  induction family with
  | rel i j clone =>
    obtain ⟨token, first, second⟩ := eq_of_isClone run clone
    exact first.trans second.symm
  | refl i => rfl
  | symm i j _ ih => exact ih.symm
  | trans i j k _ _ first second => exact first.trans second

/-- A token that was there before the last one was added belongs to no family of its own making. -/
theorem family_of_eq (run : steps {} history = some h) (first : h.tokens[i]? = some token)
    (second : h.tokens[j]? = some token) : Family history i j := by
  induction history, h, run using steps_induction generalizing i j token with
  | nothing => cases first
  | more history h op next run step ih =>
    have kept := kept_of_steps run
    rcases step_tokens step with ⟨added, -⟩ | ⟨origin, copied, rfl, there, added, -⟩ | ⟨added, -⟩
    · -- The flag of a new token is none of those before.
      have new {place : Nat} (old : h.tokens[place]? = some token) :
          token ≠ ⟨h.flags.raised.length⟩ := by
        rintro rfl
        exact Nat.lt_irrefl _ (kept.inside _ (List.mem_of_getElem? old))
      rw [added, getElem?_concat_eq_some] at first second
      rcases first with first | ⟨rfl, rfl⟩
      · rcases second with second | ⟨-, same⟩
        · exact family_concat (ih first second)
        · exact absurd same.symm (new first)
      · rcases second with second | ⟨rfl, -⟩
        · exact absurd rfl (new second)
        · exact .refl _
    · have joined : Family (history ++ [.clone origin]) origin h.tokens.length :=
        .rel _ _ (isClone_concat.mpr (.inr ⟨rfl, kept.count.symm⟩))
      rw [added, getElem?_concat_eq_some] at first second
      rcases first with first | ⟨rfl, rfl⟩
      · rcases second with second | ⟨rfl, rfl⟩
        · exact family_concat (ih first second)
        · exact (family_concat (ih first there)).trans _ _ _ joined
      · rcases second with second | ⟨rfl, -⟩
        · exact (joined.symm _ _).trans _ _ _ (family_concat (ih there second))
        · exact .refl _
    · rw [added] at first second
      exact family_concat (ih first second)

/-- Tokens name the same flag exactly if cloning joins them. -/
theorem family_iff (run : steps {} history = some h) (there : h.tokens[i]? = some token) :
    Family history i j ↔ h.tokens[j]? = some token := by
  constructor
  · intro family
    rw [← eq_of_family run family]
    exact there
  · exact family_of_eq run there

/-! ## Stops -/

/-- A step stops the token it asks to stop, or what the bridge holds, and takes nothing back. -/
theorem Kept.stopped_step (kept : Kept history h) (step : h.step op = some next) (token : Token) :
    next.flags.isStopped token = true ↔ h.flags.isStopped token = true ∨
      (∃ place, op = .stop place ∧ h.tokens[place]? = some token) ∨
      (op = .stopAll ∧ token ∈ h.bridge.tokens) := by
  cases op with
  | make | register =>
    cases step
    refine Iff.trans (Bool.eq_iff_iff.mp (Flags.isStopped_fresh_eq h.flags token)) ?_
    simp
  | clone origin =>
    obtain ⟨copied, -, rfl⟩ := Option.map_eq_some_iff.mp step
    simp
  | replace =>
    cases step
    simp
  | stop place =>
    obtain ⟨asked, there, rfl⟩ := Option.map_eq_some_iff.mp step
    constructor
    · intro stopped
      rcases Flags.stopped_or_eq_of_request stopped with before | rfl
      · exact .inl before
      · exact .inr (.inl ⟨place, rfl, there⟩)
    · rintro (before | ⟨_, ⟨⟩, same⟩ | ⟨other, -⟩)
      · exact Flags.isStopped_request_of_isStopped asked before
      · obtain rfl : asked = token := Option.some.inj (there.symm.trans same)
        exact Flags.isStopped_request_self (kept.inside _ (List.mem_of_getElem? there))
      · cases other
  | stopAll =>
    cases step
    constructor
    · intro stopped
      rcases Flags.stopped_or_mem_of_foldl stopped with before | listed
      · exact .inl before
      · exact .inr (.inr ⟨rfl, listed⟩)
    · rintro (before | ⟨_, other, -⟩ | ⟨-, listed⟩)
      · exact Flags.isStopped_foldl_request _ before
      · cases other
      · exact Flags.isStopped_foldl_of_mem listed (kept.inside _ (kept.reached _ listed))

/-- What a history says of the flags at its end, if `all` are the tokens that there will be. -/
structure Told (all : List Token) (history : List Handling) (h : Handles) : Prop where
  bridge : ∀ token, token ∈ h.bridge.tokens ↔
    ∃ earlier, IsRegistered history earlier ∧ all[made earlier]? = some token
  stopped : ∀ token, h.flags.isStopped token = true ↔
    AskedToStop history (all[·]? = some token) ∨ Signalled history (all[·]? = some token)

theorem Told.step (told : Told all history h) (kept : Kept history h)
    (step : h.step op = some next) (part : next.tokens <+: all) :
    Told all (history ++ [op]) next := by
  constructor
  case bridge =>
    intro token
    simp only [isRegistered_concat, or_and_right, exists_or, and_assoc]
    rcases step_bridge step with ⟨rfl, added, registered⟩ | ⟨rfl, renewed⟩ | ⟨other, goes, same⟩
    · have new : all[made history]? = some ⟨h.flags.raised.length⟩ := by
        refine getElem?_of_prefix part ?_
        rw [added, getElem?_concat_eq_some]
        exact .inr ⟨kept.count.symm, rfl⟩
      rw [registered, List.mem_append, List.mem_singleton, or_comm, told.bridge]
      simp [new, eq_comm]
    · simp [renewed]
    · simp [same, told.bridge, other, goes]
  case stopped =>
    intro token
    have asked : (∃ place, op = .stop place ∧ h.tokens[place]? = some token) ↔
        ∃ place, op = .stop place ∧ all[place]? = some token := by
      refine exists_congr fun place => and_congr_right ?_
      rintro rfl
      obtain ⟨asked, there, rfl⟩ := Option.map_eq_some_iff.mp step
      rw [there, getElem?_of_prefix part there]
    rw [kept.stopped_step step, told.stopped, told.bridge, asked, askedToStop_concat,
      signalled_concat, or_or_or_comm]

theorem told_of_steps (run : steps {} history = some h) (part : h.tokens <+: all) :
    Told all history h := by
  induction history, h, run using steps_induction with
  | nothing =>
    refine ⟨fun token => iff_of_false nofun ?_, fun token => iff_of_false nofun ?_⟩
    · rintro ⟨earlier, ⟨between, split, -⟩, -⟩
      simp at split
    · rintro (⟨earlier, place, part, -⟩ | ⟨before, earlier, part, -⟩)
      · simp at part
      · simp at part
  | more history h op next run step ih =>
    exact (ih ((tokens_of_step step).trans part)).step (kept_of_steps run) step part

theorem isStoppedAt_iff : h.isStoppedAt i = true ↔
    ∃ token, h.tokens[i]? = some token ∧ h.flags.isStopped token = true := by
  rw [isStoppedAt]
  cases h.tokens[i]? <;> simp

/-- What is stopped stays stopped, whatever else is done. -/
theorem isStoppedAt_mono (run : steps {} history = some h) (goesOn : h.steps more = some next)
    (stopped : h.isStoppedAt i = true) : next.isStoppedAt i = true := by
  induction more, next, goesOn using steps_induction with
  | nothing => exact stopped
  | more more mid op next goesOn step ih =>
    have kept : Kept (history ++ more) mid :=
      kept_of_steps (by rw [steps_append, run, Option.bind_some, goesOn])
    obtain ⟨token, there, before⟩ := isStoppedAt_iff.mp ih
    refine isStoppedAt_iff.mpr ⟨token, getElem?_of_prefix (tokens_of_step step) there, ?_⟩
    exact (kept.stopped_step step token).mpr (.inl before)

/-- After any history the tokens are as many as were added. A token is stopped exactly if one of its
family was stopped, or if the bridge was signalled while one of its family was registered with it;
no stop is ever taken back. The bridge has the registrations since it came into use, and a signal
says whether there are any. -/
theorem stopped_with_its_family (run : steps {} history = some h) :
    h.tokens.length = made history ∧
    (∀ place < h.tokens.length, h.isStoppedAt place = true ↔
      AskedToStop history (Family history place) ∨ Signalled history (Family history place)) ∧
    (∀ more next, h.steps more = some next →
      ∀ place, h.isStoppedAt place = true → next.isStoppedAt place = true) ∧
    h.bridge.length = registered history ∧
    ((h.bridge.stopAll h.flags).1 = true ↔ registered history ≠ 0) := by
  have kept := kept_of_steps run
  refine ⟨kept.count, ?_, fun more next goesOn place => isStoppedAt_mono run goesOn, kept.size, ?_⟩
  · intro place inside
    have there : h.tokens[place]? = some h.tokens[place] := List.getElem?_eq_getElem inside
    have family : Family history place = (h.tokens[·]? = some h.tokens[place]) :=
      funext fun other => propext (family_iff run there)
    rw [isStoppedAt, there, Option.any_some, family]
    exact (told_of_steps run (List.prefix_refl _)).stopped _
  · rw [← kept.size]
    simp [Bridge.stopAll, Bridge.isEmpty, Bridge.length]

/-- A token is stopped through a clone of its clone. The bridge it was registered with had been
given up by then, and the token made last is left alone. -/
theorem stopped_through_a_clone :
    let history : List Handling :=
      [.register, .clone 0, .replace, .register, .stopAll, .clone 1, .make, .stop 3]
    ∃ h, steps {} history = some h ∧
      (List.range 5).map h.isStoppedAt = [true, true, true, true, false] ∧
      (AskedToStop history (Family history 0) ∨ Signalled history (Family history 0)) ∧
      ¬ (AskedToStop history (Family history 4) ∨ Signalled history (Family history 4)) ∧
      h.bridge.length = 1 ∧ registered history = 1 := by
  intro history
  have run : steps {} history = some
      { flags := ⟨[true, true, false]⟩
        tokens := [⟨0⟩, ⟨0⟩, ⟨1⟩, ⟨0⟩, ⟨2⟩]
        bridge := ⟨[⟨1⟩]⟩ } := rfl
  obtain ⟨-, stopped, -, size, -⟩ := stopped_with_its_family run
  refine ⟨_, run, rfl, (stopped 0 (by decide)).mp rfl, ?_, rfl, size.symm⟩
  rw [← stopped 4 (by decide)]
  exact Bool.false_ne_true

end Handles

end MotionRace
