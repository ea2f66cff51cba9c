import MotionRace.FileStore.Basic

/-!
# Adding to a file

Whatever is put into a file, the path of the file leads to it as before: no directory on the way is
lost, and the file does not become one. So the lines that are added to a file, one piece after
another, stand in it one behind another.

Main statement: `append_of_file`.
-/

namespace MotionRace

deriving instance ReflBEq, LawfulBEq for Origin

deriving instance ReflBEq, LawfulBEq for Location

namespace Lines

theorem text_append (first second : List String) :
    text (first ++ second) = text first ++ text second := by
  simp only [text, List.map_append, String.join_append]

end Lines

theorem Location.isWithin_self (l : Location) : l.isWithin l = false := by
  simp [isWithin]

namespace FileStore

variable {s : FileStore} {path before : String} {l : Location} {content : Option String}

theorem put_of_file (there : s.place path = .file l) :
    s.put path content = { s with files := (l, content) :: s.files.filter (·.1 != l) } := by
  simp only [put, there]

/-- What is a directory stays one. -/
theorem isDirectory_put (there : s.place path = .file l) {directory : Location}
    (is : s.isDirectory directory = true) : (s.put path content).isDirectory directory = true := by
  rw [put_of_file there]
  simp only [isDirectory, Bool.or_eq_true, List.any_eq_true, List.any_cons] at is ⊢
  rcases is with (ancestor | ⟨entry, listed, within⟩) | device
  · exact .inl (.inl ancestor)
  · left; right
    by_cases same : entry.1 = l
    · exact .inl (same ▸ within)
    · exact .inr ⟨entry, List.mem_filter.mpr ⟨listed, bne_iff_ne.mpr same⟩, within⟩
  · exact .inr device

/-- The file itself does not become a directory. -/
theorem not_isDirectory_put (there : s.place path = .file l) (is : s.isDirectory l = false) :
    (s.put path content).isDirectory l = false := by
  rw [put_of_file there]
  simp only [isDirectory, Bool.or_eq_false_iff, List.any_cons, Location.isWithin_self,
    Bool.false_or] at is ⊢
  refine ⟨⟨is.1.1, ?_⟩, is.2⟩
  rw [List.any_eq_false] at is ⊢
  exact fun entry listed => is.1.2 entry (List.mem_filter.mp listed).1

theorem step_put (there : s.place path = .file l) {here goal : Location} {name : String}
    (step : s.step here name = some goal) : (s.put path content).step here name = some goal := by
  unfold FileStore.step at step ⊢
  split at step
  next => cases step
  next passable =>
    rw [Bool.or_eq_true, Bool.not_eq_true', decide_eq_true_iff, not_or, Bool.not_eq_false]
      at passable
    rw [if_neg]
    · exact step
    · simpa [isDirectory_put there passable.1] using passable.2

theorem foldlM_step_put (there : s.place path = .file l) {here goal : Location}
    (names : List String) (walk : names.foldlM s.step here = some goal) :
    names.foldlM (s.put path content).step here = some goal := by
  induction names generalizing here with
  | nil => exact walk
  | cons name rest ih =>
    obtain ⟨next, step, walk⟩ := Option.bind_eq_some_iff.mp walk
    exact Option.bind_eq_some_iff.mpr ⟨next, step_put there step, ih walk⟩

theorem start_put (there : s.place path = .file l) (other : String) :
    (s.put path content).start other = s.start other := by
  rw [put_of_file there]
  rfl

theorem follow_put (there : s.place path = .file l) {other : String} {goal : Location}
    (follows : s.follow other = some goal) : (s.put path content).follow other = some goal := by
  unfold follow at follows ⊢
  split at follows
  next => cases follows
  next whole =>
    rw [if_neg whole, start_put there]
    exact foldlM_step_put there _ follows

/-- What the path of a file leads to. -/
theorem place_eq_file :
    s.place path = .file l ↔ s.follow path = some l ∧ Device.locations.lookup l = none ∧
      s.isDirectory l = false ∧ (l.origin == .root) = false := by
  constructor
  · intro there
    unfold place at there
    split at there
    next => cases there
    next goal follows =>
      split at there
      next => cases there
      next device =>
        split at there
        next => cases there
        next free =>
          cases there
          rw [Bool.or_eq_true, not_or, Bool.not_eq_true, Bool.not_eq_true] at free
          exact ⟨follows, device, free⟩
  · rintro ⟨follows, device, directory, root⟩
    simp only [place, follows, device, directory, root, Bool.or_self, Bool.false_eq_true, if_false]

/-- The path of a file leads to it, whatever is put into it. -/
theorem place_put (there : s.place path = .file l) :
    (s.put path content).place path = .file l := by
  obtain ⟨follows, device, directory, root⟩ := place_eq_file.mp there
  exact place_eq_file.mpr
    ⟨follow_put there follows, device, not_isDirectory_put there directory, root⟩

/-- Lines that are added to a file stand behind what it held. -/
theorem append_of_file (there : s.place path = .file l)
    (held : (s.files.lookup l).getD (some "") = some before) (lines : List String) :
    ∃ s', s.append path lines = (.ok (), s') ∧ s'.place path = .file l ∧
      (s'.files.lookup l).getD (some "") = some (before ++ Lines.text lines) ∧
      s'.text? path = some (before ++ Lines.text lines) := by
  have now : ((s.put path (some (before ++ Lines.text lines))).files.lookup l) =
      some (some (before ++ Lines.text lines)) := by
    rw [put_of_file there]
    exact List.lookup_cons_self
  refine ⟨s.put path (some (before ++ Lines.text lines)), ?_, place_put there, ?_, ?_⟩
  · simp only [append, write, there, held, Option.map_some]
  · rw [now, Option.getD_some]
  · simp only [text?, place_put there, now, Option.join_some]

end FileStore

end MotionRace
