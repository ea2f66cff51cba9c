import MotionRace.Proofs.Arm.Frames
import MotionRace.Proofs.Binary64.Specials

/-!
# Circles around the ends of a link

A circle around an end of a link is hit, whatever its radius: the distance is zero. Computed with
floats it is zero as well, for the same reasons, unless something runs over on the way. Around the
first end it is enough that the differences of the ends do not. Around the second one the foot of
the perpendicular is a quotient of two equal numbers, so the square of the length must not run over
either. Where it does, the distance is no number, and as nothing compares with that, the circle is
overlooked.

Main statement: `hits_at_ends_iff`.
-/

namespace MotionRace.Geometry

open Binary64

/-- Whether the coordinates of a point are finite. -/
def Point.IsFinite (p : Point Float) : Prop := p.x.isFinite = true ∧ p.y.isFinite = true

/-- Whether the differences of two points are finite. -/
def Spans (a b : Point Float) : Prop :=
  (b.x - a.x).isFinite = true ∧ (b.y - a.y).isFinite = true

/-- Whether the square of the distance of two points is finite. -/
def Measures (a b : Point Float) : Prop :=
  ((b.x - a.x) * (b.x - a.x) + (b.y - a.y) * (b.y - a.y)).isFinite = true

variable {p a b : Point Float} {c : Circle Float} {margin s : Float}

theorem Measures.spans (measures : Measures a b) : Spans a b := by
  obtain ⟨along, across⟩ := isFinite_of_add measures
  exact ⟨(isFinite_of_mul along).1, (isFinite_of_mul across).1⟩

theorem Point.alike_of_beq (same : (p == b) = true) (finite : b.IsFinite) :
    Alike p.x b.x ∧ Alike p.y b.y := by
  replace same : (p.x == b.x && p.y == b.y) = true := same
  obtain ⟨x, y⟩ := Bool.and_eq_true_iff.mp same
  exact ⟨.of_beq x finite.1, .of_beq y finite.2⟩

/-! ## The share of the way -/

theorem clampUnit_isNaN (nan : s.isNaN = true) : (clampUnit s).isNaN = true := by
  rw [clampUnit, if_neg (not_lt_of_isNaN nan), if_neg (not_gt_of_isNaN nan)]
  exact nan

theorem clampUnit_beq_zero (zero : (s == 0) = true) : (clampUnit s == 0) = true := by
  obtain ⟨finite, vanishes⟩ := beq_zero_iff.mp zero
  have low : ¬ 1 < s := by
    rw [lt_iff_number_lt rfl finite, vanishes, number_one]
    decide
  rw [clampUnit, if_neg low]
  split
  next => rfl
  next => exact zero

theorem clampUnit_of_number_eq_one (finite : s.isFinite = true) (one : number s = 1) :
    clampUnit s = s := by
  rw [clampUnit, if_neg, if_neg]
  · rw [lt_iff_number_lt rfl finite, one, number_one]
    decide
  · rw [lt_iff_number_lt finite rfl, one, number_zero]
    decide

/-- The foot is at the first end if the product it is computed from is zero. -/
theorem footShare_beq_zero
    (zero : ((p.x - a.x) * (b.x - a.x) + (p.y - a.y) * (b.y - a.y) == 0) = true) :
    (footShare p a b == 0) = true := by
  simp only [footShare]
  split
  next long => exact clampUnit_beq_zero (div_beq_zero zero long)
  next => rfl

/-- If the product is no number, neither is the foot, unless the length is not even looked at. -/
theorem footShare_lost
    (nan : ((p.x - a.x) * (b.x - a.x) + (p.y - a.y) * (b.y - a.y)).isNaN = true) :
    (footShare p a b).isNaN = true ∨ (footShare p a b == 0) = true := by
  simp only [footShare]
  split
  next => exact .inl (clampUnit_isNaN (isNaN_div_left nan))
  next => exact .inr rfl

/-- A distance is lost with either of its coordinates. -/
theorem segmentDistanceSq_isNaN (nan : (footShare p a b * (b.x - a.x)).isNaN = true ∨
    (footShare p a b * (b.y - a.y)).isNaN = true) : (segmentDistanceSq p a b).isNaN = true := by
  rcases nan with nan | nan
  · exact isNaN_add_left (isNaN_mul_left (isNaN_sub_right nan))
  · exact isNaN_add_right (isNaN_mul_left (isNaN_sub_right nan))

/-! ## The first end -/

section First

variable (first : a.IsFinite) (here : (p == a) = true)

include first here

/-- From the first end there is no way to go. -/
theorem differences_at_first : (p.x - a.x == 0) = true ∧ (p.y - a.y == 0) = true := by
  obtain ⟨x, y⟩ := Point.alike_of_beq here first
  exact ⟨sub_beq_zero (x.isFinite_eq.trans first.1) first.1 x.number_eq,
    sub_beq_zero (y.isFinite_eq.trans first.2) first.2 y.number_eq⟩

theorem distance_at_first (spans : Spans a b) : (segmentDistanceSq p a b == 0) = true := by
  obtain ⟨along, across⟩ := differences_at_first first here
  have foot := footShare_beq_zero
    (add_beq_zero (mul_beq_zero along spans.1) (mul_beq_zero across spans.2))
  have rest {v d : Float} (vanishes : (v == 0) = true) (finite : d.isFinite = true) :
      (v - footShare p a b * d == 0) = true :=
    have same := Alike.sub_of_beq_zero (beq_zero_iff.mp vanishes).1 (mul_beq_zero foot finite)
    same.beq_zero vanishes
  exact add_beq_zero (mul_self_beq_zero (rest along spans.1))
    (mul_self_beq_zero (rest across spans.2))

/-- Zero times what is not finite is no number, in the product and again at the foot. -/
theorem lost_at_first (runsOver : ¬ Spans a b) : (segmentDistanceSq p a b).isNaN = true := by
  obtain ⟨along, across⟩ := differences_at_first first here
  have share {d : Float} (special : d.isFinite = false)
      (nan : (footShare p a b).isNaN = true ∨ (footShare p a b == 0) = true) :
      (footShare p a b * d).isNaN = true := by
    rcases nan with nan | zero
    · exact isNaN_mul_left nan
    · exact isNaN_mul_of_zero zero special
  refine segmentDistanceSq_isNaN ?_
  rcases not_and_or.mp runsOver with special | special
  · replace special := Bool.eq_false_iff.mpr special
    exact .inl (share special (footShare_lost (isNaN_add_left (isNaN_mul_of_zero along special))))
  · replace special := Bool.eq_false_iff.mpr special
    exact .inr (share special (footShare_lost (isNaN_add_right (isNaN_mul_of_zero across special))))

end First

/-! ## The second end -/

section Last

variable (first : a.IsFinite) (last : b.IsFinite)

include first last

/-- The square of a length is not below zero, even where it runs over. -/
theorem zero_le_lengthSq : 0 ≤ (b.x - a.x) * (b.x - a.x) + (b.y - a.y) * (b.y - a.y) :=
  zero_le_add (zero_le_mul_self (isNaN_sub last.1 first.1))
    (zero_le_mul_self (isNaN_sub last.2 first.2))

variable (here : (p == b) = true)

include here

/-- To the second end it is the whole way. -/
theorem differences_at_last : Alike (p.x - a.x) (b.x - a.x) ∧ Alike (p.y - a.y) (b.y - a.y) := by
  obtain ⟨x, y⟩ := Point.alike_of_beq here last
  exact ⟨x.sub_right last.1 first.1, y.sub_right last.2 first.2⟩

/-- The product that the foot is computed from is the square of the length. -/
theorem product_at_last : Alike ((p.x - a.x) * (b.x - a.x) + (p.y - a.y) * (b.y - a.y))
    ((b.x - a.x) * (b.x - a.x) + (b.y - a.y) * (b.y - a.y)) := by
  obtain ⟨x, y⟩ := differences_at_last first last here
  exact (x.mul (.refl _)).add (y.mul (.refl _))

theorem distance_at_last (measures : Measures a b) : (segmentDistanceSq p a b == 0) = true := by
  obtain ⟨x, y⟩ := differences_at_last first last here
  have product := product_at_last first last here
  have spans := measures.spans
  by_cases long : 0 < (b.x - a.x) * (b.x - a.x) + (b.y - a.y) * (b.y - a.y)
  · obtain ⟨finite, one⟩ := product.div_of_pos measures long
    have foot : footShare p a b = _ := (if_pos long).trans (clampUnit_of_number_eq_one finite one)
    rw [← foot] at finite one
    exact add_beq_zero (mul_self_beq_zero (x.sub_mul_beq_zero spans.1 finite one))
      (mul_self_beq_zero (y.sub_mul_beq_zero spans.2 finite one))
  · -- The length may be zero just because its square is too small for a float.
    have zero : ((b.x - a.x) * (b.x - a.x) + (b.y - a.y) * (b.y - a.y) == 0) = true := by
      refine beq_zero_iff.mpr ⟨measures, le_antisymm ?_ ?_⟩
      · exact not_lt.mp fun pos => long ((lt_iff_number_lt rfl measures).mpr pos)
      · exact (le_iff_number_le rfl measures).mp (zero_le_lengthSq first last)
    obtain ⟨along, across⟩ :=
      (add_beq_zero_iff (notBelow_mul_self _) (notBelow_mul_self _)).mp zero
    have foot : (footShare p a b == 0) = true := footShare_beq_zero (product.beq_zero zero)
    have rest {v d : Float} (same : Alike v d) (finite : d.isFinite = true) :
        Alike (v - footShare p a b * d) d :=
      (Alike.sub_of_beq_zero (same.isFinite_eq.trans finite) (mul_beq_zero foot finite)).trans same
    have x := rest x spans.1
    have y := rest y spans.2
    exact add_beq_zero ((x.mul x).beq_zero along) ((y.mul y).beq_zero across)

/-- The foot is a quotient of two infinities, as far as they are numbers. -/
theorem lost_at_last (runsOver : ¬ Measures a b) : (segmentDistanceSq p a b).isNaN = true := by
  have special := Bool.eq_false_iff.mpr runsOver
  have product := (product_at_last first last here).isFinite_eq.trans special
  have nan : (footShare p a b).isNaN = true := by
    simp only [footShare]
    rw [if_pos (pos_of_special (zero_le_lengthSq first last) special)]
    exact clampUnit_isNaN (isNaN_div_of_special product special)
  exact segmentDistanceSq_isNaN (.inl (isNaN_mul_left nan))

end Last

/-! ## Hits -/

/-- A hit where the distance is zero if some condition holds, and lost if not. -/
theorem hits_iff_of_lost {fits : Prop} (radius : c.radius.isFinite = true)
    (wide : margin.isFinite = true) (zero : fits → (segmentDistanceSq c.center a b == 0) = true)
    (lost : ¬ fits → (segmentDistanceSq c.center a b).isNaN = true) :
    c.hits a b margin = true ↔ fits := by
  constructor
  · intro hit
    by_contra runsOver
    exact not_le_of_isNaN (lost runsOver) (of_decide_eq_true hit)
  · intro holds
    exact decide_eq_true (le_of_zero (zero holds) (zero_le_mul_self (isNaN_add radius wide)))

/-! ## Coordinates that are not too large -/

/-- The square of a difference of floats that are not too large. -/
theorem square_of_small {x y : Float} (finite : x.isFinite = true) (also : y.isFinite = true)
    (small : |number x| ≤ 2 ^ 510) (too : |number y| ≤ 2 ^ 510) :
    ((x - y) * (x - y)).isFinite = true ∧ |number ((x - y) * (x - y))| ≤ 2 ^ 1022 := by
  have below {q : ℚ} {k : ℕ} (le : |q| ≤ 2 ^ k) (few : k < 1024) : |q| < 2 ^ 1024 :=
    le.trans_lt (pow_lt_pow_right₀ one_lt_two few)
  have difference : |nearest (number x - number y)| ≤ 2 ^ 511 := by
    refine abs_nearest_le ?_
    calc |number x - number y| ≤ |number x| + |number y| := abs_sub _ _
      _ ≤ 2 ^ 510 + 2 ^ 510 := add_le_add small too
      _ = 2 ^ 511 := (mul_two _).symm.trans (pow_succ 2 510).symm
  have rest := below difference (by decide)
  rw [← number_sub finite also rest] at difference
  have square : |nearest (number (x - y) * number (x - y))| ≤ 2 ^ 1022 := by
    refine abs_nearest_le ?_
    calc |number (x - y) * number (x - y)| = |number (x - y)| * |number (x - y)| := abs_mul _ _
      _ ≤ 2 ^ 511 * 2 ^ 511 := mul_self_le_mul_self (abs_nonneg _) difference
      _ = 2 ^ 1022 := (pow_add 2 511 511).symm
  have apart := (isFinite_sub_iff finite also).mpr rest
  have product := (isFinite_mul_iff apart apart).mpr (below square (by decide))
  exact ⟨product, number_mul product ▸ square⟩

/-- Where no coordinate is larger than the 510th power of two, nothing runs over. -/
theorem measures_of_small (first : a.IsFinite) (last : b.IsFinite)
    (small : ∀ x ∈ [a.x, a.y, b.x, b.y], |number x| ≤ 2 ^ 510) : Measures a b := by
  simp only [List.forall_mem_cons] at small
  obtain ⟨x, y, x', y', -⟩ := small
  obtain ⟨along, width⟩ := square_of_small last.1 first.1 x' x
  obtain ⟨across, height⟩ := square_of_small last.2 first.2 y' y
  refine (isFinite_add_iff along across).mpr ?_
  refine lt_of_le_of_lt (abs_nearest_le (k := 1023) ?_)
    (pow_lt_pow_right₀ one_lt_two (by decide))
  calc |number ((b.x - a.x) * (b.x - a.x)) + number ((b.y - a.y) * (b.y - a.y))|
      ≤ |number ((b.x - a.x) * (b.x - a.x))| + |number ((b.y - a.y) * (b.y - a.y))| :=
        abs_add_le _ _
    _ ≤ 2 ^ 1022 + 2 ^ 1022 := add_le_add width height
    _ = 2 ^ 1023 := (mul_two _).symm.trans (pow_succ 2 1022).symm

/-! ## Links -/

/-- A circle around the first end of a segment is hit if and only if the differences of the ends are
finite, one around the second end if and only if the square of the length is, and both are where no
coordinate is larger than the 510th power of two. The radius and the margin do not matter. A check
does not accept an arm that has an obstacle there. -/
theorem hits_at_ends_iff (c : Circle Float) (a b : Point Float) (margin : Float)
    (first : a.IsFinite) (last : b.IsFinite) (radius : c.radius.isFinite = true)
    (wide : margin.isFinite = true) :
    ((c.center == a) = true → (c.hits a b margin = true ↔ Spans a b)) ∧
    ((c.center == b) = true → (c.hits a b margin = true ↔ Measures a b)) ∧
    (Measures a b → Spans a b) ∧
    ((∀ x ∈ [a.x, a.y, b.x, b.y], |number x| ≤ 2 ^ 510) → Measures a b) ∧
    ∀ (checker : ObstacleChecker) (arm : Arm), checker.margin = margin →
      (a, b) ∈ ObstacleChecker.links arm → c ∈ checker.obstacles →
      (c.center == a) = true ∧ Spans a b ∨ (c.center == b) = true ∧ Measures a b →
        (checker.check arm).1 = false := by
  have start (here : (c.center == a) = true) : c.hits a b margin = true ↔ Spans a b :=
    hits_iff_of_lost radius wide (distance_at_first first here) (lost_at_first first here)
  have finish (here : (c.center == b) = true) : c.hits a b margin = true ↔ Measures a b :=
    hits_iff_of_lost radius wide (distance_at_last first last here) (lost_at_last first last here)
  refine ⟨start, finish, Measures.spans, measures_of_small first last, ?_⟩
  rintro checker arm rfl link listed hit
  refine Bool.eq_false_iff.mpr fun accepted => ?_
  have missed := (ObstacleChecker.accepts_iff.mp accepted).2 _ link c listed
  rcases hit with ⟨here, spans⟩ | ⟨here, measures⟩
  · rw [(start here).mpr spans] at missed
    cases missed
  · rw [(finish here).mpr measures] at missed
    cases missed

/-- A circle around the far end of a link that is five long. -/
theorem hits_around_far_end :
    (Circle.mk 3 4 0.25).hits ⟨0, 0⟩ ⟨3, 4⟩ 0.125 = true :=
  ((hits_at_ends_iff ⟨3, 4, 0.25⟩ ⟨0, 0⟩ ⟨3, 4⟩ 0.125 ⟨rfl, rfl⟩ ⟨rfl, rfl⟩
    (by decide +kernel) (by decide +kernel)).2.1 (by decide +kernel)).mpr (by
      show (((3 : Float) - 0) * (3 - 0) + (4 - 0) * (4 - 0)).isFinite = true
      decide +kernel)

/-- A link so long that the difference of its ends is infinite, with a circle around its first end,
and one so long that the square of its length is, with a circle around its second end. -/
theorem exists_overlooked_at_ends :
    (∃ (c : Circle Float) (a b : Point Float), a.IsFinite ∧ b.IsFinite ∧
      c.radius.isFinite = true ∧ 0 < c.radius ∧ c.center = a ∧ c.hits a b 0 = false) ∧
    ∃ (c : Circle Float) (a b : Point Float), a.IsFinite ∧ b.IsFinite ∧
      c.radius.isFinite = true ∧ 0 < c.radius ∧ c.center = b ∧ c.hits a b 0 = false := by
  refine ⟨⟨⟨-1e308, 0, 1⟩, ⟨-1e308, 0⟩, ⟨1e308, 0⟩, ?_⟩, ⟨1e200, 0, 1⟩, ⟨0, 0⟩, ⟨1e200, 0⟩, ?_⟩
  · exact ⟨by unfold Point.IsFinite; decide +kernel, by unfold Point.IsFinite; decide +kernel,
      by decide +kernel⟩
  · exact ⟨by unfold Point.IsFinite; decide +kernel, by unfold Point.IsFinite; decide +kernel,
      by decide +kernel⟩

end MotionRace.Geometry
