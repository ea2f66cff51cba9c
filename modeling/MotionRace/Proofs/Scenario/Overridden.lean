import Mathlib.Data.List.Nodup
import MotionRace.Command.Options
import MotionRace.Proofs.Pool.Journal
import MotionRace.Proofs.Scenario.Accepted

/-!
# Options over a scenario

Seeds can come from three places: a seed among the options, the list of a scenario and its base
seed. The number of workers can come from two, and a list is of use only if it pairs with it.
Options clear the list whenever they say something that it need not fit any more, so what they leave
is either a list that the scenario itself pairs with its workers or one that pairs by its making.

Derived seeds are words in a row that begin again with zero after the largest. They are all
different, as there are never more workers than words.

Main statement: `override_settles_seeds`.
-/

namespace MotionRace

/-! ## Words in a row -/

/-- So many words from a base on; the largest is followed by zero. -/
def wordsFrom (base : UInt64) (count : Nat) : List UInt64 :=
  (List.range' base.toNat count).map UInt64.ofNat

@[simp] theorem length_wordsFrom (base : UInt64) (count : Nat) :
    (wordsFrom base count).length = count := by
  simp [wordsFrom]

/-- Words in a row differ as long as they are not more than there are. -/
theorem nodup_wordsFrom (base : UInt64) (count : Nat) :
    (wordsFrom base count).Nodup ↔ count ≤ UInt64.size := by
  constructor
  · intro distinct
    refine Nat.not_lt.mp fun more => ?_
    -- After all the words the first one comes again.
    have first : 0 < (wordsFrom base count).length := by
      rw [length_wordsFrom]
      exact Nat.zero_lt_of_lt more
    have again : UInt64.size < (wordsFrom base count).length := by rwa [length_wordsFrom]
    have same : (wordsFrom base count)[0] = (wordsFrom base count)[UInt64.size] := by
      simp [wordsFrom, UInt64.size]
    exact absurd (distinct.getElem_inj_iff.mp same) (by decide)
  · intro few
    refine List.Nodup.map_on ?_ List.nodup_range'
    intro m listed n also same
    rw [List.mem_range'_1] at listed also
    rw [← UInt64.toNat_inj, UInt64.toNat_ofNat', UInt64.toNat_ofNat'] at same
    rw [UInt64.size] at few
    omega

theorem resolvedSeeds_of_empty {r : RaceSettings} (empty : r.seeds = []) :
    r.resolvedSeeds = match r.baseSeed with
      | some base => wordsFrom base r.workers
      | none => [] := by
  simp only [RaceSettings.resolvedSeeds, empty, List.isEmpty_nil, Bool.not_true, Bool.false_eq_true,
    if_false]
  cases r.baseSeed with
  | none => rfl
  | some base =>
    simp only [wordsFrom, List.range'_eq_map_range, List.map_map]
    refine List.map_congr_left fun i _ => ?_
    simp

theorem resolvedSeeds_of_listed {r : RaceSettings} (listed : r.seeds ≠ []) :
    r.resolvedSeeds = r.seeds := by
  simp [RaceSettings.resolvedSeeds, listed]

namespace Command

variable (o : Options) (r : RaceSettings) (s : Scenario)

/-- The seeds that options and scenario settle on. -/
def Options.settledSeeds (o : Options) (r : RaceSettings) : List UInt64 :=
  let workers := o.workers.getD r.workers
  match o.seed with
  | some seed => wordsFrom seed workers
  | none =>
    if r.seeds ≠ [] ∧ (o.workers = none ∨ o.workers = some r.seeds.length) then r.seeds
    else match r.baseSeed with
      | some base => wordsFrom base workers
      | none => []

/-- Beside the seeds, what the options give replaces what was there. -/
theorem overrideRace_eq : o.overrideRace r = { r with
    workers := o.workers.getD r.workers
    seeds := (o.overrideRace r).seeds
    baseSeed := o.seed.or r.baseSeed
    pollMicros := o.pollMicros.getD r.pollMicros
    timingLog := o.timingLog.or r.timingLog } := by
  unfold Options.overrideRace
  cases o.workers <;> cases o.seed <;> rfl

theorem workers_overrideRace : (o.overrideRace r).workers = o.workers.getD r.workers :=
  congrArg RaceSettings.workers (overrideRace_eq o r)

theorem baseSeed_overrideRace : (o.overrideRace r).baseSeed = o.seed.or r.baseSeed :=
  congrArg RaceSettings.baseSeed (overrideRace_eq o r)

/-- A list of seeds is left if no seed is given and the number of workers is left or pairs with
it. -/
theorem seeds_overrideRace : (o.overrideRace r).seeds =
    if o.seed = none ∧ (o.workers = none ∨ o.workers = some r.seeds.length) then r.seeds
    else [] := by
  unfold Options.overrideRace
  cases o.seed with
  | some seed => simp
  | none =>
    cases o.workers with
    | none => simp
    | some workers => simp [eq_comm]

theorem resolvedSeeds_overrideRace : (o.overrideRace r).resolvedSeeds = o.settledSeeds r := by
  have list := seeds_overrideRace o r
  unfold Options.settledSeeds
  cases given : o.seed with
  | some seed =>
    rw [resolvedSeeds_of_empty (by simp [list, given]), workers_overrideRace, baseSeed_overrideRace,
      given]
    rfl
  | none =>
    dsimp only
    split
    next kept =>
      have same : (o.overrideRace r).seeds = r.seeds := by rw [list, if_pos ⟨given, kept.2⟩]
      rw [resolvedSeeds_of_listed (same ▸ kept.1), same]
    next dropped =>
      have empty : (o.overrideRace r).seeds = [] := by
        rw [list]
        split
        next kept => exact Decidable.byContradiction fun listed => dropped ⟨listed, kept.2⟩
        next => rfl
      rw [resolvedSeeds_of_empty empty, workers_overrideRace, baseSeed_overrideRace, given,
        Option.none_or]

/-- With a seed or a number of workers among the options, what is left of a list pairs. -/
theorem paired_overrideRace (given : o.seed.isSome = true ∨ o.workers.isSome = true) :
    (o.overrideRace r).seeds = [] ∨
      (o.overrideRace r).seeds.length = (o.overrideRace r).workers := by
  rw [seeds_overrideRace, workers_overrideRace]
  split
  next kept =>
    obtain ⟨seed, workers | workers⟩ := kept
    · simp [seed, workers] at given
    · simp [workers]
  next => exact .inl rfl

/-- Nothing is left for the same options to change. -/
theorem overrideRace_overrideRace : o.overrideRace (o.overrideRace r) = o.overrideRace r := by
  unfold Options.overrideRace
  cases o.workers with
  | none => cases o.seed <;> cases o.pollMicros <;> cases o.timingLog <;> rfl
  | some workers =>
    by_cases same : r.seeds.length = workers <;>
      cases o.seed <;> cases o.pollMicros <;> cases o.timingLog <;> simp [same]

theorem override_override : o.override (o.override s) = o.override s := by
  have json : (o.json || (o.json || s.output.json)) = (o.json || s.output.json) := by
    rw [← Bool.or_assoc, Bool.or_self]
  have file : o.jsonOutput.or (o.jsonOutput.or s.output.jsonOutput) =
      o.jsonOutput.or s.output.jsonOutput := by
    rw [← Option.or_assoc, Option.or_self]
  simp only [Options.override, overrideRace_overrideRace, json, file]

/-- Seeds that pair are no fault, whatever else is. -/
theorem check_ne_seedCount {r : RaceSettings}
    (paired : r.seeds = [] ∨ r.seeds.length = r.workers) (seeds workers : Nat) :
    r.check ≠ .error (.seedCount seeds workers) := by
  have pass : (r.seeds.isEmpty || r.seeds.length == r.workers) = true := by
    simpa [List.isEmpty_iff] using paired
  rw [RaceSettings.check, pass]
  cases decide (r.workers ≠ 0) with
  | false =>
    intro fault
    cases fault
  | true =>
    intro fault
    cases fault

/-- Seeds that pair are no reason to refuse a pool. -/
theorem provision_ne_seedCountMismatch {σ : Type} {D : Domain σ} (template : D.Solver)
    (world : D.World) {backends : List D.Backend} {seeds : List UInt64} (shared : σ)
    (paired : seeds = [] ∨ seeds.length = backends.length) (given more : Nat) :
    (provision template world backends seeds shared).1 ≠
      .ok (.error (.seedCountMismatch given more)) := by
  by_cases any : backends = []
  · subst any
    rw [provision_nil]
    nofun
  · rw [provision_of_paired any paired]
    rcases copies world backends.length shared with ⟨panic | made, after⟩
    · nofun
    · dsimp only
      rcases buildWorkers template seeds 0 (backends.zip made) none after with
        ⟨⟨_ | ⟨worker, workers⟩, _ | last⟩, later⟩ <;> nofun

/-- Options and scenario settle on one row of seeds: that of the option, else the list of the
scenario if the number of workers is left or pairs with it, else that of the base seed. -/
theorem override_settles_seeds (o : Options) (s : Scenario) :
    let workers := o.workers.getD s.race.workers
    let settled := o.override s
    settled.race.resolvedSeeds = o.settledSeeds s.race ∧
    -- No seed is derived twice, as long as there are not more workers than words.
    (∀ base, (wordsFrom base workers).Nodup ↔ workers ≤ UInt64.size) ∧
    -- Options with a say in the seeds leave no list that does not pair.
    (o.seed.isSome = true ∨ o.workers.isSome = true → ∀ seeds count,
      settled.race.check ≠ .error (.seedCount seeds count)) ∧
    -- What passes the check pairs, and no pool is refused for it.
    (settled.race.check = .ok () →
      (settled.race.resolvedSeeds = [] ∨ settled.race.resolvedSeeds.length = workers) ∧
      ∀ (σ : Type) (D : Domain σ) (template : D.Solver) (world : D.World)
        (backends : List D.Backend) (shared : σ), backends.length = workers → ∀ seeds count,
          (provision template world backends settled.race.resolvedSeeds shared).1 ≠
            .ok (.error (.seedCountMismatch count seeds))) ∧
    -- Everything else is as the options have it, or as it was.
    settled = { s with
      race := { s.race with
        workers
        seeds := settled.race.seeds
        baseSeed := o.seed.or s.race.baseSeed
        pollMicros := o.pollMicros.getD s.race.pollMicros
        timingLog := o.timingLog.or s.race.timingLog }
      output := {
        json := o.json || s.output.json
        jsonOutput := o.jsonOutput.or s.output.jsonOutput } } ∧
    o.override settled = settled := by
  intro workers settled
  have count : settled.race.workers = workers := workers_overrideRace o s.race
  refine ⟨resolvedSeeds_overrideRace o s.race, fun base => nodup_wordsFrom base workers, ?_, ?_, ?_,
    ?_⟩
  · intro given
    exact check_ne_seedCount (paired_overrideRace o s.race given)
  · intro checked
    have paired := (resolvedSeeds_of_check checked).2
    rw [count] at paired
    refine ⟨paired, fun σ D template world backends shared length seeds count => ?_⟩
    exact provision_ne_seedCountMismatch template world shared (length ▸ paired) count seeds
  · exact congrArg (fun race : RaceSettings => { s with
      race
      output := {
        json := o.json || s.output.json
        jsonOutput := o.jsonOutput.or s.output.jsonOutput } }) (overrideRace_eq o s.race)
  · exact override_override o s

/-- A list of two seeds is dropped for three workers. The base seed is the last word but one, so the
third worker begins at zero. -/
theorem three_workers_past_the_largest_word :
    let o : Options := { config := "scenario.toml", workers := some 3 }
    let s : Scenario := {
      race := { workers := 2, seeds := [7, 8], baseSeed := some 18446744073709551614 }
      world := { joints := [] }
      problem := .toConfiguration [] [] }
    let settled := o.override s
    settled.race.check = .ok () ∧
      settled.race.resolvedSeeds = [18446744073709551614, 18446744073709551615, 0] ∧
      settled.race.resolvedSeeds.Nodup ∧ settled.race.resolvedSeeds.length = 3 ∧
      (∀ source seeds count,
        (settled.pool source).1 ≠ .ok (.error (.seedCountMismatch count seeds))) ∧
      o.override settled = settled := by
  intro o s settled
  have checked : settled.race.check = .ok () := rfl
  obtain ⟨row, distinct, -, accepted, -, again⟩ := override_settles_seeds o s
  obtain ⟨paired, granted⟩ := accepted checked
  have nodup : settled.race.resolvedSeeds.Nodup := row ▸ (distinct _).mpr (by decide)
  refine ⟨checked, by decide, nodup, paired.resolve_left (by decide), ?_, again⟩
  intro source
  exact granted _ planning _ _ _ source List.length_replicate

end Command

end MotionRace
