import MotionRace.Proofs.Json.Values
import MotionRace.Written

/-!
# Problems read back

A problem is read back from its text as it was. A float that is not finite has no text of its own:
it is written as `null`, which is no number, and a problem with such a float is not read at all.

Numbers are read exactly here: a decimal is rounded once, to the nearest float (`Decimal.nearest`),
and so every finite float is read back from the digits it is written with (`Json.number?_json`). That
much is assumed of any other reader of these texts. A reader that gives up the last place for speed
may take some decimal for a neighbour of its nearest float, and from it a problem comes back as it
was only if each of its floats does.

Main statement: `Problem.text_read_back`.
-/

namespace MotionRace

open MotionRace.Geometry (Point Region)
open Json (Value)
open Json.Value

/-! ## Parts of a problem -/

theorem reread_ofFloats (xs : List Float) :
    (ofFloats xs).reread = .array (xs.map fun x => if x.isFinite then .number x else .null) := by
  rw [ofFloats, reread]
  congr 1
  induction xs with
  | nil => rfl
  | cons x xs ih => rw [List.map_cons, rereadAll, reread, ih, List.map_cons]

theorem inWords_ofFloats (xs : List Float) : (ofFloats xs).InWords := by
  rw [ofFloats, InWords]
  induction xs with
  | nil => exact trivial
  | cons x xs ih => exact ⟨trivial, ih⟩

theorem floats?_reread (xs : List Float) :
    (ofFloats xs).reread.floats? = if xs.all Float.isFinite then some xs else none := by
  rw [reread_ofFloats]
  change (xs.map fun x => if x.isFinite then Value.number x else .null).mapM float? = _
  induction xs with
  | nil => rfl
  | cons x xs ih =>
    rw [List.map_cons, List.mapM_cons, ih, List.all_cons]
    cases x.isFinite with
    | true =>
      cases xs.all Float.isFinite <;> rfl
    | false => rfl

theorem pointOf?_reread (p : Point Float) :
    pointOf? (pointValue p).reread = if p.x.isFinite && p.y.isFinite then some p else none := by
  rw [pointOf?, pointValue, floats?_reread]
  simp only [List.all_cons, List.all_nil, Bool.and_true]
  cases p.x.isFinite && p.y.isFinite <;> rfl

theorem float?_reread (x : Float) :
    (Value.number x).reread.float? = if x.isFinite then some x else none := by
  rw [reread]
  cases x.isFinite <;> rfl

theorem member?_reread {name : String} {v w : Value} (found : v.member? name = some w) :
    v.reread.member? name = some w.reread := by
  cases v with
  | object members =>
    rw [reread]
    change (rereadMembers members).lookup name = some w.reread
    change members.lookup name = some w at found
    induction members with
    | nil => cases found
    | cons m members ih =>
      rw [List.lookup_cons] at found
      rw [rereadMembers, List.lookup_cons]
      generalize (name == m.1) = here at found ⊢
      cases here with
      | true =>
        cases found
        rfl
      | false => exact ih found
  | _ => cases found

theorem regionOf?_reread (r : Region Float) :
    regionOf? (regionValue r).reread =
      if r.center.x.isFinite && r.center.y.isFinite && r.radius.isFinite then some r else none := by
  have center : (regionValue r).reread.member? "center" = some (pointValue r.center).reread :=
    member?_reread rfl
  have radius : (regionValue r).reread.member? "radius" = some (Value.number r.radius).reread :=
    member?_reread rfl
  rw [regionOf?, center, radius]
  simp only [Option.bind_eq_bind, Option.bind_some, pointOf?_reread, float?_reread]
  cases r.center.x.isFinite && r.center.y.isFinite <;> cases r.radius.isFinite <;> rfl

namespace ProblemKind

theorem text?_reread (k : ProblemKind) : k.toJson.reread.text? = some k.name := by
  rw [toJson, reread]
  · rfl
  all_goals nofun

theorem ofName?_name (k : ProblemKind) : ofName? k.name = some k := by
  cases k <;> decide

end ProblemKind

namespace Problem

/-- All floats of a problem. -/
def floats : Problem → List Float
  | .toConfiguration start goal => start ++ goal
  | .toRegion start region => start ++ [region.center.x, region.center.y, region.radius]

theorem inWords_toJson (p : Problem) : p.toJson.InWords := by
  cases p with
  | toConfiguration start goal =>
    exact ⟨trivial, inWords_ofFloats start, inWords_ofFloats goal, trivial⟩
  | toRegion start region =>
    exact ⟨trivial, inWords_ofFloats start, ⟨inWords_ofFloats _, trivial, trivial⟩, trivial⟩

theorem ofJson?_reread (p : Problem) :
    ofJson? p.toJson.reread = if p.floats.all Float.isFinite then some p else none := by
  cases p with
  | toConfiguration start goal =>
    have kind : (toJson (.toConfiguration start goal)).reread.member? "kind" =
        some ProblemKind.toConfiguration.toJson.reread := member?_reread rfl
    have first : (toJson (.toConfiguration start goal)).reread.member? "start" =
        some (ofFloats start).reread := member?_reread rfl
    have last : (toJson (.toConfiguration start goal)).reread.member? "goal" =
        some (ofFloats goal).reread := member?_reread rfl
    rw [ofJson?, kind, first, last]
    simp only [Option.bind_eq_bind, Option.bind_some, ProblemKind.text?_reread,
      ProblemKind.ofName?_name, floats?_reread, floats, List.all_append]
    cases start.all Float.isFinite <;> cases goal.all Float.isFinite <;> rfl
  | toRegion start region =>
    have kind : (toJson (.toRegion start region)).reread.member? "kind" =
        some ProblemKind.toRegion.toJson.reread := member?_reread rfl
    have first : (toJson (.toRegion start region)).reread.member? "start" =
        some (ofFloats start).reread := member?_reread rfl
    have last : (toJson (.toRegion start region)).reread.member? "region" =
        some (regionValue region).reread := member?_reread rfl
    rw [ofJson?, kind, first, last]
    simp only [Option.bind_eq_bind, Option.bind_some, ProblemKind.text?_reread,
      ProblemKind.ofName?_name, floats?_reread, regionOf?_reread, floats, List.all_append,
      List.all_cons, List.all_nil, Bool.and_true, Bool.and_assoc]
    cases start.all Float.isFinite <;>
      cases region.center.x.isFinite && (region.center.y.isFinite && region.radius.isFinite) <;> rfl

theorem parse?_text (p : Problem) :
    parse? p.text = if p.floats.all Float.isFinite then some p else none := by
  rw [parse?, text, parse?_compact (inWords_toJson p)]
  exact ofJson?_reread p

/-- A problem of finite floats is read back from its text as it was, as numbers are read exactly, and
one with any other float is not read at all. So whatever is read back is the problem that was
written, and of its kind and its number of joints. -/
theorem text_read_back (p : Problem) :
    ((∀ x ∈ p.floats, x.isFinite = true) → parse? p.text = some p) ∧
      ((∃ x ∈ p.floats, x.isNaN = true ∨ x.isInf = true) → parse? p.text = none) ∧
      ∀ q, parse? p.text = some q → q = p ∧ q.kind = p.kind ∧ q.dof = p.dof := by
  rw [parse?_text]
  refine ⟨fun finite => if_pos (List.all_eq_true.mpr finite), ?_, ?_⟩
  · rintro ⟨x, there, special⟩
    refine if_neg fun finite => ?_
    have also := List.all_eq_true.mp finite x there
    rw [Binary64.isFinite_eq_false_iff.mpr special] at also
    cases also
  · intro q read
    obtain ⟨-, same⟩ := Option.ite_none_right_eq_some.mp read
    cases same
    exact ⟨rfl, rfl, rfl⟩

/-- Signed zeros, subnormal floats and empty arrays are read back; an infinite radius is not. -/
theorem ends_of_the_range_read_back :
    parse? (text (.toConfiguration [] [-0.0, 5e-324])) = some (.toConfiguration [] [-0.0, 5e-324]) ∧
      parse? (text (.toRegion [0.5] ⟨⟨0, 1⟩, 1 / 0⟩)) = none :=
  ⟨(text_read_back _).1 (by decide +kernel),
    (text_read_back _).2.1 ⟨1 / 0, by simp [floats], by decide +kernel⟩⟩

end Problem

end MotionRace
