import MotionRace.Race.Outcome

/-!
# Collecting the results of a race

The launched workers report into one place each. The collector looks at the places in turn, pass
after pass. The first place seen with a success decides the race; a failure, or a worker that
vanished without a report, empties the place and counts; when everything launched has failed the
race is lost. Before each pass the collector looks whether the race was called off.
-/

namespace MotionRace

/-- What a look at one place finds. -/
inductive Look (α : Type) where
  | empty
  | ready (verdict : Verdict α)
  /-- The worker is gone and never reported. -/
  | vanished
  deriving Repr, BEq, DecidableEq

/-- A launched worker whose report has not been seen: its id and where it reports. -/
structure Pending where
  worker : Nat
  thread : Nat
  deriving Repr, BEq, DecidableEq

/-- Where a collector stands. -/
inductive Cursor where
  /-- Before a pass. -/
  | head
  /-- In a pass, about to look at the place of an index. -/
  | place (index : Nat)
  deriving Repr, BEq, DecidableEq

/-- A collector at work. A place is empty once its report was seen. -/
structure Collector where
  places : List (Option Pending)
  failures : Nat
  launched : Nat
  cursor : Cursor := .head
  deriving Repr, BEq, DecidableEq

/-- A collector goes on, or has decided. -/
inductive Collected (α : Type) where
  | goesOn (collector : Collector)
  | decided (outcome : Outcome α)
  deriving Repr, BEq, DecidableEq

namespace Collector

variable {α : Type}

/-- The collector before its first pass. -/
def ofPlaces (places : List (Option Pending)) (failures launched : Nat) : Collector :=
  { places, failures, launched }

/-- The decision before a pass, given whether the race was called off. -/
def atHead (c : Collector) (calledOff : Bool) : Collected α :=
  if calledOff then .decided .aborted
  else if c.failures = c.launched then .decided .allFailed
  else .goesOn { c with cursor := .place 0 }

/-- The place the collector is about to look at, if it holds a worker. -/
def pending? (c : Collector) : Option Pending :=
  match c.cursor with
  | .head => none
  | .place index => (c.places[index]?).join

/-- The collector past the place of an index. -/
def pass (c : Collector) (index : Nat) : Collector :=
  { c with cursor := if index + 1 < c.places.length then .place (index + 1) else .head }

/-- The collector past the place of an index, whose worker failed. -/
def drop (c : Collector) (index : Nat) : Collector :=
  { c with places := c.places.set index none, failures := c.failures + 1 }.pass index

/-- What a look at the place of an index leads to. -/
def observe (c : Collector) (index worker : Nat) : Look α → Collected α
  | .empty => .goesOn (c.pass index)
  | .ready (.success artifact) => .decided (.succeeded worker artifact)
  | .ready (.failure _) => .goesOn (c.drop index)
  | .vanished => .goesOn (c.drop index)

/-- One step of a collector: the decision before a pass, or one look. A place without a worker is
passed over. -/
def step (c : Collector) (calledOff : Bool) (look : Pending → Look α) : Collected α :=
  match c.cursor with
  | .head => c.atHead calledOff
  | .place index =>
    match (c.places[index]?).join with
    | none => .goesOn (c.pass index)
    | some pending => c.observe index pending.worker (look pending)

end Collector

end MotionRace
