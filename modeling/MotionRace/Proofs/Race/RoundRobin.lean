import MotionRace.Proofs.Race.Polls

/-!
# The order in which a collector polls

A collector goes through a list of places that it empties one by one, pass after pass. Seen from
outside it is a queue: the place whose turn it is goes to the end if it shows nothing, and goes away
if it shows something (`turns`). The list and its cursor are that queue, cut at the cursor
(`queueAt`), and the tally is what is missing from it. So the collector takes the first success in
the order of the queue, and it gives up when the queue is empty and not before.

Main statement: `collects_round_robin`.
-/

namespace MotionRace

variable {α : Type}

/-- What a look finds that may wait for so long: the first thing that the place shows meanwhile.
Without a wait that is what the place shows at once. -/
def Look.within (shows : Nat → Look α) : (wait : Nat) → Look α
  | 0 => shows 0
  | wait + 1 =>
    match Look.within shows wait with
    | .empty => shows (wait + 1)
    | found => found

/-- Whether a poll found a failure, or a worker gone. -/
def Poll.Fails (poll : Poll α) : Prop :=
  (∃ reason, poll.found = .ready (.failure reason)) ∨ poll.found = .vanished

theorem Poll.fails_of_seen {poll : Poll α} (seen : poll.isSeen = true) (lost : poll.isWin = false) :
    poll.Fails := by
  unfold isSeen at seen
  unfold isWin at lost
  unfold Fails
  cases found : poll.found with
  | empty => rw [found] at seen; cases seen
  | vanished => exact .inr rfl
  | ready verdict =>
    cases verdict with
    | failure reason => exact .inl ⟨reason, rfl⟩
    | success artifact => rw [found] at lost; cases lost

theorem Poll.Fails.isSeen {poll : Poll α} (fails : poll.Fails) : poll.isSeen = true := by
  rcases fails with ⟨reason, found⟩ | found <;> rw [Poll.isSeen, found]

theorem Poll.found_of_unseen {poll : Poll α} (unseen : poll.isSeen = false) :
    poll.found = .empty := by
  unfold isSeen at unseen
  cases found : poll.found with
  | empty => rfl
  | ready | vanished =>
    rw [found] at unseen
    cases unseen

theorem Poll.found_of_seen {poll : Poll α} (seen : poll.isSeen = true) : poll.found ≠ .empty := by
  intro found
  rw [isSeen, found] at seen
  cases seen

theorem Poll.lost_of_unseen {poll : Poll α} (unseen : poll.isSeen = false) :
    poll.isWin = false := by
  rw [isWin, Poll.found_of_unseen unseen]

namespace Collector

/-- The places that are waited for when the poll of a number comes, in the order of their turns. The
place that is polled goes to the end if it shows nothing, and goes away otherwise. -/
def turns (seen : Nat → Look α) (places : List Nat) : (poll : Nat) → List Nat
  | 0 => places
  | poll + 1 =>
    match turns seen places poll with
    | [] => []
    | place :: rest =>
      match seen poll with
      | .empty => rest ++ [place]
      | _ => rest

/-- What a collector has come to after so many steps, and the polls that it made, when the poll of
each number finds what a schedule says and nobody calls the race off. -/
def course (c : Collector) (seen : Nat → Look α) : (steps : Nat) → Collected α × List (Poll α)
  | 0 => (.goesOn c, [])
  | steps + 1 =>
    match c.course seen steps with
    | (.decided outcome, polls) => (.decided outcome, polls)
    | (.goesOn now, polls) =>
      (now.step false fun _ => seen polls.length,
        polls ++ (now.poll? fun _ => seen polls.length).toList)

/-- Whether a collector comes to an outcome. -/
def Decides (c : Collector) (seen : Nat → Look α) (outcome : Outcome α) : Prop :=
  ∃ steps, (c.course seen steps).1 = .decided outcome

/-! ## The queue in the list -/

/-- The places that hold a worker, in a list whose first place has a number. -/
def heldFrom : (first : Nat) → (places : List (Option Pending)) → List Nat
  | _, [] => []
  | first, none :: places => heldFrom (first + 1) places
  | first, some _ :: places => first :: heldFrom (first + 1) places

/-- The places that hold a worker, those before a cut after those behind it. -/
def queueAt (places : List (Option Pending)) (cut : Nat) : List Nat :=
  heldFrom cut (places.drop cut) ++ heldFrom 0 (places.take cut)

theorem countP_isNone_set_none {places : List (Option Pending)} {place : Nat} {pending : Pending}
    (there : places[place]? = some (some pending)) :
    (places.set place none).countP Option.isNone = places.countP Option.isNone + 1 := by
  obtain ⟨inside, found⟩ := List.getElem?_eq_some_iff.mp there
  rw [List.countP_set inside, found]
  simp only [Option.isNone_some, Option.isNone_none, if_true, Bool.false_eq_true, if_false,
    Nat.sub_zero]

section Queue

variable {places : List (Option Pending)} {cut : Nat}

theorem heldFrom_append (first : Nat) (places more : List (Option Pending)) :
    heldFrom first (places ++ more) =
      heldFrom first places ++ heldFrom (first + places.length) more := by
  induction places generalizing first with
  | nil => rfl
  | cons place places ih =>
    have later : first + 1 + places.length = first + (places.length + 1) := by omega
    cases place with
    | none => simp only [List.cons_append, heldFrom, List.length_cons, ih, later]
    | some pending => simp only [List.cons_append, heldFrom, List.length_cons, ih, later]

theorem heldFrom_map_some (first : Nat) (pending : List Pending) :
    heldFrom first (pending.map some) = List.range' first pending.length := by
  induction pending generalizing first with
  | nil => rfl
  | cons worker pending ih =>
    simp only [List.map_cons, heldFrom, List.length_cons, List.range'_succ, ih]

theorem heldFrom_eq_nil {first : Nat} (emptied : ∀ place ∈ places, place = none) :
    heldFrom first places = [] := by
  induction places generalizing first with
  | nil => rfl
  | cons place places ih =>
    obtain ⟨rfl, others⟩ := List.forall_mem_cons.mp emptied
    exact ih others

/-- A queue that is cut at its end is cut at its start. -/
theorem queueAt_length (places : List (Option Pending)) :
    queueAt places places.length = queueAt places 0 := by
  simp only [queueAt, List.drop_length, List.take_length, List.drop_zero, List.take_zero, heldFrom,
    List.nil_append, List.append_nil]

/-- A place that holds nobody has no turn. -/
theorem queueAt_none (there : places[cut]? = some none) :
    queueAt places (cut + 1) = queueAt places cut := by
  obtain ⟨inside, found⟩ := List.getElem?_eq_some_iff.mp there
  rw [queueAt, queueAt, List.drop_eq_getElem_cons inside, found, List.take_add_one, there,
    heldFrom_append]
  simp only [heldFrom, Option.toList_some, List.append_nil]

/-- A place that holds a worker comes first, and it comes last once its turn is over. When it is
emptied it does not come again. -/
theorem queueAt_some {pending : Pending} (there : places[cut]? = some (some pending)) :
    ∃ rest, queueAt places cut = cut :: rest ∧ queueAt places (cut + 1) = rest ++ [cut] ∧
      queueAt (places.set cut none) (cut + 1) = rest := by
  obtain ⟨inside, found⟩ := List.getElem?_eq_some_iff.mp there
  have short : (places.take cut).length = cut := List.length_take_of_le (Nat.le_of_lt inside)
  refine ⟨heldFrom (cut + 1) (places.drop (cut + 1)) ++ heldFrom 0 (places.take cut), ?_, ?_, ?_⟩
  · rw [queueAt, List.drop_eq_getElem_cons inside, found]
    rfl
  · rw [queueAt, List.take_add_one, there, heldFrom_append, short, Nat.zero_add, List.append_assoc]
    rfl
  · have emptied : (places.set cut none)[cut]? = some none := by
      rw [List.getElem?_set_self inside]
    rw [queueAt, List.take_add_one, emptied, heldFrom_append,
      List.drop_set_of_lt (Nat.lt_succ_self cut), List.take_set_of_le (Nat.le_refl cut)]
    simp only [heldFrom, Option.toList_some, List.append_nil]

end Queue

/-- The place at which the queue of a collector is cut. -/
def cut (c : Collector) : Nat :=
  match c.cursor with
  | .head => 0
  | .place place => place

theorem inside_pass {c : Collector} {place next : Nat}
    (cursor : (c.pass place).cursor = .place next) : next < c.places.length := by
  simp only [pass] at cursor
  split at cursor
  next more =>
    cases cursor
    exact more
  next => cases cursor

/-- A collector that passes a place has its queue cut behind it. -/
theorem queueAt_pass {c : Collector} {place : Nat} (inside : place < c.places.length) :
    queueAt (c.pass place).places (c.pass place).cut = queueAt c.places (place + 1) := by
  by_cases more : place + 1 < c.places.length
  · simp only [pass, cut, if_pos more]
  · have last : place + 1 = c.places.length := by omega
    simp only [pass, cut, if_neg more]
    rw [last, queueAt_length]

section Turns

variable {seen : Nat → Look α} {places : List Nat} {poll : Nat}

theorem turns_nil_of_le {later : Nat} (before : poll ≤ later) (gone : turns seen places poll = []) :
    turns seen places later = [] := by
  induction before with
  | refl => exact gone
  | step _ ih => rw [turns, ih]

theorem turns_succ_of_empty {place : Nat} {rest : List Nat}
    (turn : turns seen places poll = place :: rest) (empty : seen poll = .empty) :
    turns seen places (poll + 1) = rest ++ [place] := by
  simp only [turns, turn, empty]

theorem turns_succ_of_shown {place : Nat} {rest : List Nat}
    (turn : turns seen places poll = place :: rest) (shown : seen poll ≠ .empty) :
    turns seen places (poll + 1) = rest := by
  rw [turns, turn]
  cases found : seen poll with
  | empty => exact absurd found shown
  | ready | vanished => rfl

/-- In the first pass the turns go by the numbers of the places. -/
theorem turns_first_pass {count : Nat} (within : poll ≤ count) :
    ∃ back, turns seen (List.range count) poll = List.range' poll (count - poll) ++ back := by
  induction poll with
  | zero => exact ⟨[], by rw [turns, List.range_eq_range', List.append_nil, Nat.sub_zero]⟩
  | succ poll ih =>
    obtain ⟨back, turn⟩ := ih (Nat.le_of_succ_le within)
    have more : count - poll = count - (poll + 1) + 1 := by omega
    rw [more, List.range'_succ, List.cons_append] at turn
    cases found : seen poll with
    | empty => exact ⟨back ++ [poll], by rw [turns_succ_of_empty turn found, List.append_assoc]⟩
    | ready | vanished =>
      exact ⟨back, turns_succ_of_shown turn (by rw [found]; exact nofun)⟩

theorem turns_head_first_pass {count : Nat} (within : poll < count) :
    (turns seen (List.range count) poll).head? = some poll := by
  obtain ⟨back, turn⟩ : ∃ back, turns seen (List.range count) poll =
      List.range' poll (count - poll) ++ back := turns_first_pass (Nat.le_of_lt within)
  have more : count - poll = count - (poll + 1) + 1 := by omega
  rw [turn, more, List.range'_succ, List.cons_append, List.head?_cons]

end Turns

/-! ## The queue along a course -/

/-- Polls that go by turns: each is of the place whose turn it is and finds what the schedule says,
and what a place has shown is the last that is polled of it. -/
structure InTurn (pending : List Pending) (seen : Nat → Look α) (polls : List (Poll α)) :
    Prop where
  turn : ∀ (k : Nat) (poll : Poll α), polls[k]? = some poll →
    (turns seen (List.range pending.length) k).head? = some poll.place ∧
      pending[poll.place]? = some poll.pending ∧ poll.found = seen k
  once : polls.Pairwise fun first second => first.place = second.place → first.found = .empty

/-- What a collector that goes on has to do with the polls that it made. -/
structure Follows (pending : List Pending) (failures : Nat) (seen : Nat → Look α) (c : Collector)
    (polls : List (Poll α)) : Prop where
  inTurn : InTurn pending seen polls
  queue : turns seen (List.range pending.length) polls.length = queueAt c.places c.cut
  launched : c.launched = failures + pending.length
  length : c.places.length = pending.length
  tally : c.failures = failures + c.places.countP Option.isNone
  inside : ∀ place, c.cursor = .place place → place < c.places.length
  held : ∀ (place : Nat) (worker : Pending), c.places[place]? = some (some worker) →
    pending[place]? = some worker
  emptied : ∀ place : Nat, c.places[place]? = some none →
    ∃ poll ∈ polls, poll.place = place ∧ poll.Fails
  shown : ∀ poll ∈ polls, poll.isSeen = true → c.places[poll.place]? = some none
  lost : ∀ poll ∈ polls, poll.isWin = false

/-- How a collector stands after some polls. -/
inductive Stands (pending : List Pending) (failures : Nat) (seen : Nat → Look α) :
    Collected α → List (Poll α) → Prop where
  | goesOn {c : Collector} {polls : List (Poll α)}
      (follows : Follows pending failures seen c polls) :
      Stands pending failures seen (.goesOn c) polls
  | allFailed {c : Collector} {polls : List (Poll α)}
      (follows : Follows pending failures seen c polls)
      (emptied : ∀ place ∈ c.places, place = none) :
      Stands pending failures seen (.decided .allFailed) polls
  | won {c : Collector} {polls : List (Poll α)} {poll : Poll α} {artifact : α}
      (follows : Follows pending failures seen c polls)
      (polled : c.poll? (fun _ => seen polls.length) = some poll)
      (found : poll.found = .ready (.success artifact)) :
      Stands pending failures seen (.decided (.succeeded poll.pending.worker artifact))
        (polls ++ [poll])

section Stands

variable {pending : List Pending} {failures : Nat} {seen : Nat → Look α} {c next : Collector}
  {polls : List (Poll α)} {poll : Poll α}

theorem follows_ofPlaces {launched : Nat} (counted : failures + pending.length = launched) :
    Follows pending failures seen (ofPlaces (pending.map some) failures launched) [] where
  inTurn := ⟨nofun, List.Pairwise.nil⟩
  queue := by
    simp only [turns, List.length_nil, queueAt, cut, ofPlaces, List.drop_zero, List.take_zero,
      heldFrom, heldFrom_map_some, List.append_nil, List.range_eq_range']
  launched := counted.symm
  length := List.length_map _
  tally := by
    have all : (pending.map some).countP Option.isNone = 0 := by
      simp only [List.countP_eq_zero, List.forall_mem_map, Option.isNone_some, Bool.false_eq_true,
        not_false_eq_true, implies_true]
    simp only [ofPlaces, all, Nat.add_zero]
  inside := nofun
  held place worker there := by
    simpa only [ofPlaces, List.getElem?_map, Option.map_eq_some_iff, Option.some.injEq,
      exists_eq_right] using there
  emptied place there := by
    simp only [ofPlaces, List.getElem?_map, Option.map_eq_some_iff, reduceCtorEq, and_false,
      exists_false] at there
  shown := nofun
  lost := nofun

namespace Follows

/-- The poll that comes next is of the place whose turn it is, and that place has shown nothing. -/
theorem inTurn_concat (follows : Follows pending failures seen c polls)
    (polled : c.poll? (fun _ => seen polls.length) = some poll) :
    InTurn pending seen (polls ++ [poll]) := by
  obtain ⟨⟨cursor, there⟩, found⟩ := at_of_poll? polled
  obtain ⟨rest, first, -⟩ := queueAt_some there
  have turn : (turns seen (List.range pending.length) polls.length).head? = some poll.place := by
    rw [follows.queue, cut, cursor, first, List.head?_cons]
  refine ⟨fun k other made => ?_, List.pairwise_append.mpr
    ⟨follows.inTurn.once, List.pairwise_singleton .., fun former made last alone same => ?_⟩⟩
  · rcases Nat.lt_or_ge k polls.length with old | new
    · rw [List.getElem?_append_left old] at made
      exact follows.inTurn.turn k other made
    · obtain ⟨at_end, rfl⟩ : k - polls.length = 0 ∧ poll = other := by
        rw [List.getElem?_append_right new, List.getElem?_singleton] at made
        split at made
        next at_end => exact ⟨at_end, Option.some.inj made⟩
        next => cases made
      obtain rfl : k = polls.length := by omega
      exact ⟨turn, follows.held poll.place poll.pending there, found⟩
  · obtain rfl := List.mem_singleton.mp alone
    refine Poll.found_of_unseen (Bool.eq_false_iff.mpr fun shown => ?_)
    have gone := follows.shown former made shown
    rw [same, there] at gone
    cases gone

/-- A collector whose places are all empty has nobody left to count. -/
theorem all_lost_iff (follows : Follows pending failures seen c polls) :
    c.failures = c.launched ↔ ∀ place ∈ c.places, place = none := by
  rw [follows.tally, follows.launched, ← follows.length, Nat.add_left_cancel_iff,
    List.countP_eq_length]
  exact forall₂_congr fun _ _ => Option.isNone_iff_eq_none

/-- A place is empty once a failure was seen there. -/
theorem cleared_iff (follows : Follows pending failures seen c polls) {place : Nat} :
    c.places[place]? = some none ↔ ∃ poll ∈ polls, poll.place = place ∧ poll.Fails :=
  ⟨follows.emptied place, fun ⟨poll, made, here, fails⟩ =>
    here ▸ follows.shown poll made fails.isSeen⟩

/-- A pass that begins changes nothing. -/
theorem begin (follows : Follows pending failures seen c polls) (cursor : c.cursor = .head)
    (more : c.failures ≠ c.launched) :
    Follows pending failures seen { c with cursor := .place 0 } polls where
  inTurn := follows.inTurn
  queue := by rw [follows.queue, cut, cursor]; rfl
  launched := follows.launched
  length := follows.length
  tally := follows.tally
  inside place at_place := by
    cases at_place
    refine List.length_pos_of_ne_nil fun nobody => more (follows.all_lost_iff.mpr ?_)
    rw [nobody]
    exact nofun
  held := follows.held
  emptied := follows.emptied
  shown := follows.shown
  lost := follows.lost

/-- A collector makes no poll at a place that holds nobody, and only there. -/
theorem nobody_of_poll? {place : Nat} (follows : Follows pending failures seen c polls)
    (cursor : c.cursor = .place place) {look : Pending → Look α} (polled : c.poll? look = none) :
    c.places[place]? = some none := by
  have inside := follows.inside place cursor
  simp only [poll?, cursor, Option.map_eq_none_iff, List.getElem?_eq_getElem inside,
    Option.join_some] at polled
  rw [List.getElem?_eq_getElem inside, polled]

/-- A place that holds nobody is passed. -/
theorem pass_nobody {place : Nat} (follows : Follows pending failures seen c polls)
    (cursor : c.cursor = .place place) (nobody : c.places[place]? = some none) :
    Follows pending failures seen (c.pass place) polls where
  inTurn := follows.inTurn
  queue := by
    rw [follows.queue, queueAt_pass (follows.inside place cursor), queueAt_none nobody, cut, cursor]
  launched := follows.launched
  length := follows.length
  tally := follows.tally
  inside _ := inside_pass
  held := follows.held
  emptied := follows.emptied
  shown := follows.shown
  lost := follows.lost

/-- A place that shows nothing is passed, and comes last. -/
theorem pass_polled (follows : Follows pending failures seen c polls)
    (polled : c.poll? (fun _ => seen polls.length) = some poll) (unseen : poll.isSeen = false) :
    Follows pending failures seen (c.pass poll.place) (polls ++ [poll]) where
  inTurn := follows.inTurn_concat polled
  queue := by
    obtain ⟨⟨cursor, there⟩, found⟩ := at_of_poll? polled
    obtain ⟨rest, first, last, -⟩ := queueAt_some there
    have turn := follows.queue
    rw [cut, cursor, first] at turn
    have empty : seen polls.length = .empty := found ▸ Poll.found_of_unseen unseen
    rw [List.length_append, List.length_singleton, turns_succ_of_empty turn empty,
      queueAt_pass (follows.inside _ cursor), last]
  launched := follows.launched
  length := follows.length
  tally := follows.tally
  inside _ := inside_pass
  held := follows.held
  emptied place nobody := by
    obtain ⟨former, made, fails⟩ := follows.emptied place nobody
    exact ⟨former, List.mem_append_left _ made, fails⟩
  shown := List.forall_mem_append.mpr ⟨follows.shown, List.forall_mem_singleton.mpr
    fun seen => absurd (unseen.symm.trans seen) nofun⟩
  lost := List.forall_mem_append.mpr ⟨follows.lost, List.forall_mem_singleton.mpr
    (Poll.lost_of_unseen unseen)⟩

/-- A place that shows a failure is emptied, and does not come again. -/
theorem drop_polled (follows : Follows pending failures seen c polls)
    (polled : c.poll? (fun _ => seen polls.length) = some poll) (shown : poll.isSeen = true)
    (lost : poll.isWin = false) :
    Follows pending failures seen (c.drop poll.place) (polls ++ [poll]) := by
  obtain ⟨⟨cursor, there⟩, found⟩ := at_of_poll? polled
  have inside := follows.inside _ cursor
  have places : (c.drop poll.place).places = c.places.set poll.place none := rfl
  have same : (c.places.set poll.place none).length = c.places.length := List.length_set
  have self : (c.places.set poll.place none)[poll.place]? = some none := by
    rw [List.getElem?_set_self inside]
  exact {
    inTurn := follows.inTurn_concat polled
    queue := by
      obtain ⟨rest, first, -, last⟩ := queueAt_some there
      have turn := follows.queue
      rw [cut, cursor, first] at turn
      have nonempty : seen polls.length ≠ .empty := found ▸ Poll.found_of_seen shown
      rw [List.length_append, List.length_singleton, turns_succ_of_shown turn nonempty, drop,
        queueAt_pass (same ▸ inside), last]
    launched := follows.launched
    length := same.trans follows.length
    tally := by
      have one := countP_isNone_set_none there
      have before := follows.tally
      show c.failures + 1 = failures + (c.places.set poll.place none).countP Option.isNone
      omega
    inside _ := inside_pass
    held place worker held := by
      rw [places, List.getElem?_set] at held
      split at held
      next => cases held
      next => exact follows.held place worker held
    emptied place nobody := by
      by_cases here : poll.place = place
      · exact ⟨poll, List.mem_concat_self, here, poll.fails_of_seen shown lost⟩
      · rw [places, List.getElem?_set_ne here] at nobody
        obtain ⟨former, made, fails⟩ := follows.emptied place nobody
        exact ⟨former, List.mem_append_left _ made, fails⟩
    shown := by
      refine List.forall_mem_append.mpr ⟨fun former made shown => ?_,
        List.forall_mem_singleton.mpr fun _ => self⟩
      by_cases here : poll.place = former.place
      · exact here ▸ self
      · rw [places, List.getElem?_set_ne here]
        exact follows.shown former made shown
    lost := List.forall_mem_append.mpr ⟨follows.lost, List.forall_mem_singleton.mpr lost⟩ }

/-- What a step of a collector leads to. -/
theorem step (follows : Follows pending failures seen c polls) :
    Stands pending failures seen (c.step false fun _ => seen polls.length)
      (polls ++ (c.poll? fun _ => seen polls.length).toList) := by
  cases looked : c.step false fun _ => seen polls.length with
  | decided outcome =>
    rcases decided_by looked with ⟨nothing, ⟨-, off⟩ | ⟨rfl, -, all⟩⟩ |
      ⟨poll, artifact, polled, found, rfl⟩
    · cases off
    · rw [nothing, Option.toList_none, List.append_nil]
      exact .allFailed follows (follows.all_lost_iff.mp all)
    · rw [polled]
      exact .won follows polled found
  | goesOn next =>
    rcases goesOn_by looked with ⟨cursor, nothing, -, rfl⟩ |
      ⟨place, cursor, ⟨rfl, unseen⟩ | ⟨poll, polled, rfl, shown, lost, rfl⟩⟩
    · rw [nothing, Option.toList_none, List.append_nil]
      refine .goesOn (follows.begin cursor fun all => ?_)
      simp only [Collector.step, cursor, atHead, all, Bool.false_eq_true, if_false, if_true,
        reduceCtorEq] at looked
    · cases polled : c.poll? fun _ => seen polls.length with
      | none =>
        rw [Option.toList_none, List.append_nil]
        exact .goesOn (follows.pass_nobody cursor (follows.nobody_of_poll? cursor polled))
      | some poll =>
        obtain ⟨⟨there, -⟩, -⟩ := at_of_poll? polled
        obtain rfl : place = poll.place := Cursor.place.inj (cursor.symm.trans there)
        exact .goesOn (follows.pass_polled polled (unseen poll polled))
    · rw [polled]
      exact .goesOn (follows.drop_polled polled shown lost)

end Follows

namespace Stands

theorem inTurn {state : Collected α} (stands : Stands pending failures seen state polls) :
    InTurn pending seen polls := by
  cases stands with
  | goesOn follows | allFailed follows => exact follows.inTurn
  | won follows polled => exact follows.inTurn_concat polled

theorem follows (stands : Stands pending failures seen (.goesOn c) polls) :
    Follows pending failures seen c polls := by
  cases stands with
  | goesOn follows => exact follows

end Stands

end Stands

section Course

variable {pending : List Pending} {failures launched : Nat} {seen : Nat → Look α}
  {c now : Collector} {polls : List (Poll α)} {steps : Nat}

theorem course_goesOn (reached : c.course seen steps = (.goesOn now, polls)) :
    c.course seen (steps + 1) = (now.step false fun _ => seen polls.length,
      polls ++ (now.poll? fun _ => seen polls.length).toList) := by
  rw [course, reached]

theorem course_decided {outcome : Outcome α}
    (reached : c.course seen steps = (.decided outcome, polls)) :
    c.course seen (steps + 1) = (.decided outcome, polls) := by
  rw [course, reached]

/-- A collector that has a place for everybody it waits for stands so after every step. -/
theorem course_stands (counted : failures + pending.length = launched) (steps : Nat) :
    Stands pending failures seen
      ((ofPlaces (pending.map some) failures launched).course seen steps).1
      ((ofPlaces (pending.map some) failures launched).course seen steps).2 := by
  induction steps with
  | zero => exact .goesOn (follows_ofPlaces counted)
  | succ steps ih =>
    cases reached : (ofPlaces (pending.map some) failures launched).course seen steps with
    | mk state polls =>
      rw [reached] at ih
      cases ih with
      | goesOn follows => rw [course_goesOn reached]; exact follows.step
      | allFailed follows emptied => rw [course_decided reached]; exact .allFailed follows emptied
      | won follows polled found => rw [course_decided reached]; exact .won follows polled found

/-- In a pass a collector comes to a place that holds a worker, or to the end of the pass if no such
place is left in it. It makes no poll before that. -/
theorem course_walk {now : Collector} {steps place : Nat}
    (reached : c.course seen steps = (.goesOn now, polls)) (cursor : now.cursor = .place place) :
    ∃ later cursor, c.course seen later = (.goesOn { now with cursor }, polls) ∧
      ((cursor = .head ∧ ∀ next, place ≤ next → (now.places[next]?).join = none) ∨
        ∃ next pending, cursor = .place next ∧ now.places[next]? = some (some pending)) := by
  cases held : (now.places[place]?).join with
  | some pending =>
    refine ⟨steps, .place place, ?_, .inr ⟨place, pending, rfl, Option.join_eq_some_iff.mp held⟩⟩
    rw [reached, ← cursor]
  | none =>
    have nothing : now.poll? (fun _ => seen polls.length) = none := by
      simp only [poll?, cursor, held, Option.map_none]
    have passed : c.course seen (steps + 1) = (.goesOn (now.pass place), polls) := by
      rw [course_goesOn reached, nothing, Option.toList_none, List.append_nil]
      simp only [step, cursor, held]
    by_cases more : place + 1 < now.places.length
    · have next : (now.pass place).cursor = .place (place + 1) := if_pos more
      obtain ⟨later, cursor, at_later, ⟨rfl, none_left⟩ | found⟩ := course_walk passed next
      · refine ⟨later, .head, at_later, .inl ⟨rfl, fun next from_place => ?_⟩⟩
        rcases Nat.eq_or_lt_of_le from_place with rfl | behind
        · exact held
        · exact none_left next behind
      · exact ⟨later, cursor, at_later, .inr found⟩
    · have at_head : now.pass place = { now with cursor := .head } := by
        simp only [pass, if_neg more]
      refine ⟨steps + 1, .head, at_head ▸ passed, .inl ⟨rfl, fun next from_place => ?_⟩⟩
      rcases Nat.eq_or_lt_of_le from_place with rfl | behind
      · exact held
      · rw [List.getElem?_eq_none (by omega), Option.join_none]
termination_by now.places.length - place
decreasing_by
  show now.places.length - (place + 1) < now.places.length - place
  omega

/-- A collector that waits for nobody any more gives up, with no further poll. -/
theorem course_nobody_left (follows : Follows pending failures seen now polls)
    (reached : c.course seen steps = (.goesOn now, polls))
    (nobody : ∀ place ∈ now.places, place = none) :
    ∃ later, c.course seen later = (.decided .allFailed, polls) := by
  have all := follows.all_lost_iff.mpr nobody
  have give_up {start : Collector} {steps : Nat}
      (reached : c.course seen steps = (.goesOn start, polls)) (cursor : start.cursor = .head)
      (all : start.failures = start.launched) :
      c.course seen (steps + 1) = (.decided .allFailed, polls) := by
    rw [course_goesOn reached]
    simp only [poll?, step, atHead, cursor, all, Bool.false_eq_true, if_false, if_true,
      Option.toList_none, List.append_nil]
  cases cursor : now.cursor with
  | head => exact ⟨steps + 1, give_up reached cursor all⟩
  | place place =>
    obtain ⟨later, cursor, at_later, ⟨rfl, -⟩ | ⟨next, pending, -, held⟩⟩ :=
      course_walk reached cursor
    · exact ⟨later + 1, give_up at_later rfl all⟩
    · cases nobody _ (List.mem_of_getElem? held)

/-- A collector that waits for somebody makes another poll. -/
theorem course_polls {place : Nat} {pending : Pending}
    (reached : c.course seen steps = (.goesOn now, polls)) (more : now.failures ≠ now.launched)
    (held : now.places[place]? = some (some pending)) :
    ∃ later, polls.length < (c.course seen later).2.length := by
  have there : (now.places[place]?).join = some pending := Option.join_eq_some_iff.mpr held
  have poll {next at_next : Nat} {worker : Pending}
      (reached : c.course seen at_next = (.goesOn { now with cursor := .place next }, polls))
      (held : now.places[next]? = some (some worker)) :
      polls.length < (c.course seen (at_next + 1)).2.length := by
    rw [course_goesOn reached]
    simp only [poll?, Option.join_eq_some_iff.mpr held, Option.map_some, Option.toList_some,
      List.length_append, List.length_singleton, Nat.lt_succ_self]
  have from_head {at_head : Nat}
      (reached : c.course seen at_head = (.goesOn { now with cursor := .head }, polls)) :
      ∃ later, polls.length < (c.course seen later).2.length := by
    have begun :
        c.course seen (at_head + 1) = (.goesOn { now with cursor := .place 0 }, polls) := by
      rw [course_goesOn reached]
      simp only [poll?, step, atHead, more, Bool.false_eq_true, if_false, Option.toList_none,
        List.append_nil]
    obtain ⟨later, cursor, at_later, ⟨-, nobody⟩ | ⟨next, worker, rfl, held⟩⟩ :=
      course_walk begun rfl
    · exact absurd (there.symm.trans (nobody place (Nat.zero_le place))) (Option.some_ne_none _)
    · exact ⟨later + 1, poll at_later held⟩
  cases cursor : now.cursor with
  | head =>
    have at_head : c.course seen steps = (.goesOn { now with cursor := .head }, polls) := by
      rw [reached, ← cursor]
    exact from_head at_head
  | place start =>
    obtain ⟨later, cursor, at_later, ⟨rfl, -⟩ | ⟨next, worker, rfl, held⟩⟩ :=
      course_walk reached cursor
    · exact from_head at_later
    · exact ⟨later + 1, poll at_later held⟩

end Course

/-! ## What a collector decides -/

/-- The first success that is polled, and its place. -/
def FirstSuccess (seen : Nat → Look α) (places : List Nat) (place : Nat) (artifact : α) : Prop :=
  ∃ poll, (turns seen places poll).head? = some place ∧ seen poll = .ready (.success artifact) ∧
    ∀ earlier < poll, ∀ other, seen earlier ≠ .ready (.success other)

section Decisions

variable {pending : List Pending} {failures : Nat} {seen : Nat → Look α} {c now : Collector}
  {polls : List (Poll α)}

theorem Follows.no_success (follows : Follows pending failures seen now polls) :
    ∀ earlier < polls.length, ∀ artifact, seen earlier ≠ .ready (.success artifact) := by
  intro earlier inside artifact success
  have made := List.getElem?_eq_getElem inside
  have found := (follows.inTurn.turn earlier _ made).2.2
  have lost := follows.lost _ (List.mem_of_getElem? made)
  rw [Poll.isWin, found, success] at lost
  cases lost

/-- The poll of a success is the first one. -/
theorem Follows.firstSuccess (follows : Follows pending failures seen now polls) {poll : Poll α}
    {artifact : α} (polled : now.poll? (fun _ => seen polls.length) = some poll)
    (found : poll.found = .ready (.success artifact)) :
    pending[poll.place]? = some poll.pending ∧
      FirstSuccess seen (List.range pending.length) poll.place artifact := by
  have made : (polls ++ [poll])[polls.length]? = some poll := List.getElem?_concat_length
  obtain ⟨turn, there, schedule⟩ := (follows.inTurn_concat polled).turn polls.length poll made
  exact ⟨there, polls.length, turn, schedule.symm.trans found, follows.no_success⟩

/-- There is one first success. -/
theorem FirstSuccess.unique {places : List Nat} {place other : Nat} {artifact another : α}
    (first : FirstSuccess seen places place artifact)
    (also : FirstSuccess seen places other another) : place = other ∧ artifact = another := by
  obtain ⟨poll, turn, success, none_before⟩ := first
  obtain ⟨poll', turn', success', none_before'⟩ := also
  obtain before | rfl | after := Nat.lt_trichotomy poll poll'
  · exact absurd success (none_before' poll before artifact)
  · rw [turn] at turn'
    rw [success] at success'
    cases turn'
    cases success'
    exact ⟨rfl, rfl⟩
  · exact absurd success' (none_before poll' after another)

/-- When everybody is seen to have failed there is no success to poll. -/
theorem Follows.not_firstSuccess (follows : Follows pending failures seen now polls)
    (emptied : ∀ place ∈ now.places, place = none) {place : Nat} {artifact : α} :
    ¬ FirstSuccess seen (List.range pending.length) place artifact := by
  rintro ⟨poll, turn, success, -⟩
  rcases Nat.lt_or_ge poll polls.length with made | later
  · exact follows.no_success poll made artifact success
  · have nobody : turns seen (List.range pending.length) polls.length = [] := by
      rw [follows.queue, queueAt, heldFrom_eq_nil, heldFrom_eq_nil, List.append_nil]
      · exact fun place listed => emptied place (List.mem_of_mem_take listed)
      · exact fun place listed => emptied place (List.mem_of_mem_drop listed)
    rw [turns_nil_of_le later nobody] at turn
    cases turn

variable (stands : ∀ steps,
  Stands pending failures seen (c.course seen steps).1 (c.course seen steps).2)

include stands

/-- A collector decides or polls on without end. -/
theorem course_unbounded (count : Nat) :
    ∃ steps, (∃ outcome, (c.course seen steps).1 = .decided outcome) ∨
      count ≤ (c.course seen steps).2.length := by
  induction count with
  | zero => exact ⟨0, .inr (Nat.zero_le _)⟩
  | succ count ih =>
    obtain ⟨steps, decided | many⟩ := ih
    · exact ⟨steps, .inl decided⟩
    · have now := stands steps
      cases reached : c.course seen steps with
      | mk state polls =>
        rw [reached] at now many
        cases now with
        | allFailed | won => exact ⟨steps, .inl ⟨_, by rw [reached]⟩⟩
        | @goesOn now _ follows =>
          by_cases nobody : ∀ place ∈ now.places, place = none
          · obtain ⟨later, given_up⟩ := course_nobody_left follows reached nobody
            exact ⟨later, .inl ⟨_, by rw [given_up]⟩⟩
          · have more : now.failures ≠ now.launched := fun all =>
              nobody (follows.all_lost_iff.mp all)
            obtain ⟨worker, listed, waits⟩ : ∃ worker ∈ now.places, worker ≠ none := by
              simpa only [not_forall, exists_prop] using nobody
            obtain ⟨worker, rfl⟩ := Option.ne_none_iff_exists'.mp waits
            obtain ⟨place, held⟩ := List.getElem?_of_mem listed
            obtain ⟨later, longer⟩ := course_polls reached more held
            exact ⟨later, .inr (Nat.lt_of_le_of_lt many longer)⟩

/-- Why a collector decides when nobody calls the race off. -/
theorem of_decides {outcome : Outcome α} (decides : c.Decides seen outcome) :
    (outcome = .allFailed ∧ ∃ steps now, Follows pending failures seen now (c.course seen steps).2 ∧
      ∀ place ∈ now.places, place = none) ∨
    ∃ place launch artifact, outcome = .succeeded launch.worker artifact ∧
      pending[place]? = some launch ∧
      FirstSuccess seen (List.range pending.length) place artifact := by
  obtain ⟨steps, decided⟩ := decides
  have ended := stands steps
  cases reached : c.course seen steps with
  | mk state polls =>
    rw [reached] at decided ended
    obtain rfl : state = .decided outcome := decided
    cases ended with
    | allFailed follows emptied =>
      exact .inl ⟨rfl, steps, _, by rw [reached]; exact follows, emptied⟩
    | won follows polled found =>
      obtain ⟨there, first⟩ := follows.firstSuccess polled found
      exact .inr ⟨_, _, _, rfl, there, first⟩

/-- A collector succeeds with the first success that it polls. -/
theorem decides_succeeded_iff {worker : Nat} {artifact : α} :
    c.Decides seen (.succeeded worker artifact) ↔
      ∃ place launch, pending[place]? = some launch ∧ launch.worker = worker ∧
        FirstSuccess seen (List.range pending.length) place artifact := by
  constructor
  · intro decides
    obtain ⟨lost, -⟩ | ⟨place, launch, _, won, there, first⟩ := of_decides stands decides
    · cases lost
    · cases won
      exact ⟨place, launch, there, rfl, first⟩
  · rintro ⟨place, launch, there, rfl, first⟩
    obtain ⟨poll, -, success, -⟩ := id first
    obtain ⟨steps, ended⟩ := course_unbounded stands (poll + 1)
    have now := stands steps
    cases reached : c.course seen steps with
    | mk state polls =>
      rw [reached] at now ended
      cases now with
      | goesOn follows =>
        rcases ended with ⟨_, decided⟩ | many
        · cases decided
        · exact absurd success (follows.no_success poll many artifact)
      | allFailed follows emptied => exact absurd first (follows.not_firstSuccess emptied)
      | won follows polled found =>
        obtain ⟨held, also⟩ := follows.firstSuccess polled found
        obtain ⟨rfl, rfl⟩ := also.unique first
        obtain rfl := Option.some.inj (held.symm.trans there)
        exact ⟨steps, by rw [reached]⟩

/-- A collector gives up when it has seen at every place that the worker failed. -/
theorem decides_allFailed_iff :
    c.Decides seen .allFailed ↔
      ∃ steps, ∀ place < pending.length,
        ∃ poll ∈ (c.course seen steps).2, poll.place = place ∧ poll.Fails := by
  constructor
  · intro decides
    obtain ⟨-, steps, now, follows, emptied⟩ | ⟨_, _, _, won, -⟩ := of_decides stands decides
    · refine ⟨steps, fun place inside => follows.emptied place ?_⟩
      have inside : place < now.places.length := follows.length ▸ inside
      rw [List.getElem?_eq_getElem inside, emptied _ (List.getElem_mem inside)]
    · cases won
  · rintro ⟨steps, everybody⟩
    have now := stands steps
    cases reached : c.course seen steps with
    | mk state polls =>
      rw [reached] at now everybody
      cases now with
      | @goesOn now _ follows =>
        have nobody : ∀ place ∈ now.places, place = none := by
          intro held listed
          obtain ⟨place, there⟩ := List.getElem?_of_mem listed
          have inside := (List.getElem?_eq_some_iff.mp there).choose
          have cleared := follows.cleared_iff.mpr (everybody place (follows.length ▸ inside))
          exact Option.some.inj (there.symm.trans cleared)
        obtain ⟨later, given_up⟩ := course_nobody_left follows reached nobody
        exact ⟨later, by rw [given_up]⟩
      | allFailed => exact ⟨steps, by rw [reached]⟩
      | @won now former last artifact follows polled found =>
        obtain ⟨⟨cursor, held⟩, -⟩ := at_of_poll? polled
        obtain ⟨poll, made, here, fails⟩ :=
          everybody last.place (follows.length ▸ follows.inside _ cursor)
        rcases List.mem_append.mp made with before | now
        · have cleared := follows.cleared_iff.mpr ⟨poll, before, here, fails⟩
          cases held.symm.trans cleared
        · obtain rfl := List.mem_singleton.mp now
          rcases fails with ⟨reason, lost⟩ | lost <;> cases found.symm.trans lost

end Decisions

/-- A collector that nobody calls off polls its places in turn. It succeeds with the first success
that it polls, and so in its first pass with that of the earliest place. It gives up when it has
seen every worker fail or vanish, at once and not before. Until then it polls on, and its tally is
what it started from and the places that it has emptied. -/
theorem collects_round_robin (pending : List Pending) (failures launched wait : Nat)
    (shows : Nat → Nat → Look α) (counted : failures + pending.length = launched) :
    let c := ofPlaces (pending.map some) failures launched
    let seen := fun poll => Look.within (shows poll) wait
    (∀ steps, InTurn pending seen (c.course seen steps).2) ∧
    (∀ worker artifact, c.Decides seen (.succeeded worker artifact) ↔
      ∃ place launch, pending[place]? = some launch ∧ launch.worker = worker ∧
        FirstSuccess seen (List.range pending.length) place artifact) ∧
    (∀ place launch artifact, pending[place]? = some launch →
      seen place = .ready (.success artifact) →
      (∀ earlier < place, ∀ other, seen earlier ≠ .ready (.success other)) →
      c.Decides seen (.succeeded launch.worker artifact)) ∧
    (c.Decides seen .allFailed ↔ ∃ steps, ∀ place < pending.length,
      ∃ poll ∈ (c.course seen steps).2, poll.place = place ∧ poll.Fails) ∧
    (∀ outcome, c.Decides seen outcome →
      outcome = .allFailed ∨ ∃ worker artifact, outcome = .succeeded worker artifact) ∧
    (∀ steps now polls, c.course seen steps = (.goesOn now, polls) →
      now.launched = launched ∧ now.places.length = pending.length ∧
      now.failures = failures + now.places.countP Option.isNone ∧
      (∀ place : Nat, now.places[place]? = some none ↔
        ∃ poll ∈ polls, poll.place = place ∧ poll.Fails) ∧
      ((∀ place ∈ now.places, place = none) →
        ∃ later, c.course seen later = (.decided .allFailed, polls))) ∧
    (∀ count, ∃ steps, (∃ outcome, (c.course seen steps).1 = .decided outcome) ∨
      count ≤ (c.course seen steps).2.length) := by
  intro c seen
  have stands : ∀ steps, Stands pending failures seen (c.course seen steps).1
      (c.course seen steps).2 := course_stands counted
  refine ⟨fun steps => (stands steps).inTurn, fun _ _ => decides_succeeded_iff stands, ?_,
    decides_allFailed_iff stands, ?_, ?_, course_unbounded stands⟩
  · intro place launch artifact there success first
    have inside : place < pending.length := (List.getElem?_eq_some_iff.mp there).choose
    refine (decides_succeeded_iff stands).mpr ⟨place, launch, there, rfl, place, ?_, success, first⟩
    exact turns_head_first_pass inside
  · intro outcome decides
    obtain ⟨rfl, -⟩ | ⟨_, launch, artifact, rfl, -⟩ := of_decides stands decides
    · exact .inl rfl
    · exact .inr ⟨launch.worker, artifact, rfl⟩
  · intro steps now polls reached
    have follows : Follows pending failures seen now polls := by
      have now := stands steps
      rw [reached] at now
      exact now.follows
    exact ⟨follows.launched.trans counted, follows.length, follows.tally,
      fun _ => follows.cleared_iff, course_nobody_left follows reached⟩

/-- Two workers and a thread that could not be started. The first worker says nothing yet and the
second one succeeds while it is waited for. -/
theorem second_worker_succeeds :
    1 + [Pending.mk 4 0, Pending.mk 7 1].length = 3 ∧
    (ofPlaces ([Pending.mk 4 0, Pending.mk 7 1].map some) 1 3).Decides
      (fun poll => Look.within (fun time =>
        if poll = 1 ∧ time = 1 then .ready (.success "path") else .empty) 1)
      (.succeeded 7 "path") := by
  refine ⟨rfl, (collects_round_robin [⟨4, 0⟩, ⟨7, 1⟩] 1 3 1 _ rfl).2.2.1 1 ⟨7, 1⟩ "path" rfl rfl ?_⟩
  intro earlier before other success
  obtain rfl : earlier = 0 := by omega
  cases success

end Collector

end MotionRace
