import Mathlib.Analysis.InnerProductSpace.PiL2
import MotionRace.Geometry.Segment

/-!
# The distance from a point to a segment

Over exact numbers the squared distance to a point that runs along a segment is a quadratic of the
share of the way. The share that is computed is the vertex of this quadratic kept between zero and
one, and it is the best of all shares: where the vertex is cut off, the quadratic falls towards the
end that it is cut off at (`clampUnit_optimal`). A segment without length has one point, and the
share zero is as good as any.

Rational shares are enough: the best share of a segment between rational points is rational, so no
other point of the plane's segment comes closer.

Main statement: `hits_iff_within_reach`. It is about exact numbers. Floats round, and nothing is
said of them here.
-/

namespace MotionRace.Geometry

section Field

variable {K : Type} [Field K]

/-- The point a share `t` of the way from `a` to `b`. -/
def Point.along (a b : Point K) (t : K) : Point K := ⟨a.x + t * (b.x - a.x), a.y + t * (b.y - a.y)⟩

/-- The square of the distance of two points. -/
def Point.distanceSq (p q : Point K) : K := (p.x - q.x) * (p.x - q.x) + (p.y - q.y) * (p.y - q.y)

/-- The square of the length of a segment. -/
def Point.lengthSq (a b : Point K) : K := (b.x - a.x) * (b.x - a.x) + (b.y - a.y) * (b.y - a.y)

/-- The vertex of the quadratic, times the square of the length. -/
def Point.foot (p a b : Point K) : K := (p.x - a.x) * (b.x - a.x) + (p.y - a.y) * (b.y - a.y)

/-- The quadratic of the share. -/
theorem distanceSq_along (p a b : Point K) (t : K) :
    p.distanceSq (a.along b t) =
      p.distanceSq a - 2 * t * p.foot a b + t * t * a.lengthSq b := by
  simp only [Point.distanceSq, Point.along, Point.foot, Point.lengthSq]
  ring

/-- The points of a segment, from its other end. -/
theorem along_comm (a b : Point K) (t : K) : b.along a t = a.along b (1 - t) := by
  simp only [Point.along, Point.mk.injEq]
  constructor <;> ring

variable [LinearOrder K]

theorem footShare_eq (p a b : Point K) :
    footShare p a b = if 0 < a.lengthSq b then clampUnit (p.foot a b / a.lengthSq b) else 0 :=
  rfl

theorem segmentDistanceSq_eq (p a b : Point K) :
    segmentDistanceSq p a b = p.distanceSq (a.along b (footShare p a b)) := by
  simp only [segmentDistanceSq, Point.distanceSq, Point.along]
  ring

end Field

/-! ## The best share -/

section Order

variable {K : Type} [Field K] [LinearOrder K] [IsStrictOrderedRing K]

theorem clampUnit_mem (s : K) : 0 ≤ clampUnit s ∧ clampUnit s ≤ 1 := by
  unfold clampUnit
  split
  next => exact ⟨le_refl 0, zero_le_one⟩
  next low =>
    split
    next => exact ⟨zero_le_one, le_refl 1⟩
    next high => exact ⟨not_lt.mp low, not_lt.mp high⟩

/-- No share does better than the vertex that is kept between zero and one. -/
theorem clampUnit_optimal (s : K) {t : K} (low : 0 ≤ t) (high : t ≤ 1) :
    0 ≤ (t - clampUnit s) * (t + clampUnit s - 2 * s) := by
  unfold clampUnit
  split
  next below =>
    have rises : 0 ≤ t + 0 - 2 * s := by linarith
    exact mul_nonneg (by linarith) rises
  next =>
    split
    next above =>
      have falls : t + 1 - 2 * s ≤ 0 := by linarith
      exact mul_nonneg_of_nonpos_of_nonpos (by linarith) falls
    next =>
      have square : (t - s) * (t + s - 2 * s) = (t - s) * (t - s) := by ring
      exact square ▸ mul_self_nonneg (t - s)

theorem footShare_mem (p a b : Point K) : 0 ≤ footShare p a b ∧ footShare p a b ≤ 1 := by
  rw [footShare_eq]
  split
  next => exact clampUnit_mem _
  next => exact ⟨le_refl 0, zero_le_one⟩

/-- A segment without length goes nowhere. -/
theorem foot_of_lengthSq {a b : Point K} (short : ¬ 0 < a.lengthSq b) (p : Point K) :
    a.lengthSq b = 0 ∧ p.foot a b = 0 := by
  have along := mul_self_nonneg (b.x - a.x)
  have across := mul_self_nonneg (b.y - a.y)
  unfold Point.lengthSq at short
  have x : b.x - a.x = 0 := mul_self_eq_zero.mp (by linarith)
  have y : b.y - a.y = 0 := mul_self_eq_zero.mp (by linarith)
  simp only [Point.lengthSq, Point.foot, x, y, mul_zero, add_zero, and_self]

theorem segmentDistanceSq_le (p a b : Point K) {t : K} (low : 0 ≤ t) (high : t ≤ 1) :
    segmentDistanceSq p a b ≤ p.distanceSq (a.along b t) := by
  rw [segmentDistanceSq_eq, distanceSq_along, distanceSq_along]
  by_cases long : 0 < a.lengthSq b
  · have share : footShare p a b = clampUnit (p.foot a b / a.lengthSq b) := if_pos long
    have vertex : p.foot a b = p.foot a b / a.lengthSq b * a.lengthSq b :=
      (div_mul_cancel₀ _ (ne_of_gt long)).symm
    rw [share]
    generalize p.foot a b / a.lengthSq b = s at vertex ⊢
    have gain := mul_nonneg (clampUnit_optimal s low high) (le_of_lt long)
    have difference : (t - clampUnit s) * (t + clampUnit s - 2 * s) * a.lengthSq b =
        (t * t * a.lengthSq b - 2 * t * (s * a.lengthSq b)) -
          (clampUnit s * clampUnit s * a.lengthSq b -
            2 * clampUnit s * (s * a.lengthSq b)) := by ring
    rw [vertex]
    linarith
  · obtain ⟨length, foot⟩ := foot_of_lengthSq long p
    rw [length, foot]
    linarith

/-- The squared distance to a segment is the least of those to its points. -/
theorem isLeast_segmentDistanceSq (p a b : Point K) :
    IsLeast {d | ∃ t, 0 ≤ t ∧ t ≤ 1 ∧ d = p.distanceSq (a.along b t)}
      (segmentDistanceSq p a b) := by
  constructor
  · obtain ⟨low, high⟩ := footShare_mem p a b
    exact ⟨footShare p a b, low, high, segmentDistanceSq_eq p a b⟩
  · intro d found
    obtain ⟨t, low, high, rfl⟩ := found
    exact segmentDistanceSq_le p a b low high

theorem segmentDistanceSq_comm (p a b : Point K) :
    segmentDistanceSq p a b = segmentDistanceSq p b a := by
  have one (a b : Point K) : segmentDistanceSq p a b ≤ segmentDistanceSq p b a := by
    obtain ⟨low, high⟩ := footShare_mem p b a
    rw [segmentDistanceSq_eq p b a, along_comm]
    exact segmentDistanceSq_le p a b (by linarith) (by linarith)
  exact le_antisymm (one a b) (one b a)

end Order

/-! ## The plane -/

/-- A point with rational coordinates, over the reals. -/
def Point.real (p : Point ℚ) : Point ℝ := ⟨p.x, p.y⟩

/-- A point of the Euclidean plane. -/
noncomputable def Point.inPlane (p : Point ℝ) : EuclideanSpace ℝ (Fin 2) := !₂[p.x, p.y]

theorem dist_sq_inPlane (p q : Point ℝ) : dist p.inPlane q.inPlane ^ 2 = p.distanceSq q := by
  rw [EuclideanSpace.dist_sq_eq, Fin.sum_univ_two, Real.dist_eq, Real.dist_eq, sq_abs, sq_abs, sq,
    sq]
  rfl

theorem inPlane_along (a b : Point ℝ) (t : ℝ) :
    (a.along b t).inPlane = AffineMap.lineMap a.inPlane b.inPlane t := by
  ext i
  fin_cases i
  · simp [Point.inPlane, Point.along, AffineMap.lineMap_apply]
    ring
  · simp [Point.inPlane, Point.along, AffineMap.lineMap_apply]
    ring

theorem real_along (a b : Point ℚ) (t : ℚ) : (a.along b t).real = a.real.along b.real t := by
  simp only [Point.real, Point.along]
  push_cast
  rfl

theorem real_distanceSq (p q : Point ℚ) : p.real.distanceSq q.real = (p.distanceSq q : ℚ) := by
  simp only [Point.real, Point.distanceSq]
  push_cast
  rfl

theorem real_clampUnit (s : ℚ) : clampUnit (s : ℝ) = (clampUnit s : ℚ) := by
  unfold clampUnit
  split_ifs <;> norm_cast at *

theorem real_footShare (p a b : Point ℚ) :
    footShare p.real a.real b.real = (footShare p a b : ℚ) := by
  have length : a.real.lengthSq b.real = (a.lengthSq b : ℚ) := by
    simp only [Point.real, Point.lengthSq]
    push_cast
    rfl
  have foot : p.real.foot a.real b.real = (p.foot a b : ℚ) := by
    simp only [Point.real, Point.foot]
    push_cast
    rfl
  rw [footShare_eq, footShare_eq, length, foot, ← Rat.cast_div, real_clampUnit]
  split_ifs <;> norm_cast at *

/-- The best of the real shares is rational. -/
theorem real_segmentDistanceSq (p a b : Point ℚ) :
    segmentDistanceSq p.real a.real b.real = (segmentDistanceSq p a b : ℚ) := by
  rw [segmentDistanceSq_eq, segmentDistanceSq_eq, real_footShare, ← real_along, real_distanceSq]

theorem mem_segment_inPlane {a b : Point ℝ} {q : EuclideanSpace ℝ (Fin 2)} :
    q ∈ segment ℝ a.inPlane b.inPlane ↔ ∃ t, 0 ≤ t ∧ t ≤ 1 ∧ (a.along b t).inPlane = q := by
  simp only [segment_eq_image_lineMap, Set.mem_image, Set.mem_Icc, and_assoc, inPlane_along]

/-- The squared distance to a segment is the least of those to the points of its plane's segment. -/
theorem isLeast_dist_sq (p a b : Point ℝ) :
    IsLeast {d | ∃ q ∈ segment ℝ a.inPlane b.inPlane, d = dist p.inPlane q ^ 2}
      (segmentDistanceSq p a b) := by
  have same : {d | ∃ q ∈ segment ℝ a.inPlane b.inPlane, d = dist p.inPlane q ^ 2} =
      {d | ∃ t, 0 ≤ t ∧ t ≤ 1 ∧ d = p.distanceSq (a.along b t)} := by
    ext d
    constructor
    · intro found
      obtain ⟨q, inside, rfl⟩ := found
      obtain ⟨t, low, high, rfl⟩ := mem_segment_inPlane.mp inside
      exact ⟨t, low, high, dist_sq_inPlane p _⟩
    · intro found
      obtain ⟨t, low, high, rfl⟩ := found
      exact ⟨_, mem_segment_inPlane.mpr ⟨t, low, high, rfl⟩, (dist_sq_inPlane p _).symm⟩
  rw [same]
  exact isLeast_segmentDistanceSq p a b

/-! ## Circles -/

/-- Distances are compared with a reach by their squares. -/
theorem dist_le_iff {p q : EuclideanSpace ℝ (Fin 2)} {reach : ℝ} (positive : 0 ≤ reach) :
    dist q p ≤ reach ↔ dist p q ^ 2 ≤ reach * reach := by
  rw [dist_comm, ← sq, sq_le_sq₀ dist_nonneg positive]

theorem hits_iff (c : Circle ℚ) (a b : Point ℚ) (margin : ℚ) :
    c.hits a b margin = true ↔
      ((segmentDistanceSq c.center a b : ℚ) : ℝ) ≤
        (c.radius + margin : ℚ) * (c.radius + margin : ℚ) := by
  rw [← Rat.cast_mul, Rat.cast_le]
  exact decide_eq_true_iff

/-- Over exact numbers a segment hits a circle if and only if one of its points lies within the
radius and the margin of the middle of the circle. What is compared is the least squared distance,
and it does not matter which end of the segment comes first. -/
theorem hits_iff_within_reach (c : Circle ℚ) (a b : Point ℚ) (margin : ℚ)
    (positive : 0 ≤ c.radius + margin) :
    (c.hits a b margin = true ↔ ∃ t : ℚ, 0 ≤ t ∧ t ≤ 1 ∧
      dist (a.along b t).real.inPlane c.center.real.inPlane ≤ (c.radius + margin : ℚ)) ∧
    -- The same with all the points of the plane's segment.
    (c.hits a b margin = true ↔ ∃ q ∈ segment ℝ a.real.inPlane b.real.inPlane,
      dist q c.center.real.inPlane ≤ (c.radius + margin : ℚ)) ∧
    (∀ p : Point ℚ,
      IsLeast {d | ∃ t, 0 ≤ t ∧ t ≤ 1 ∧ d = p.distanceSq (a.along b t)}
        (segmentDistanceSq p a b) ∧
      IsLeast {d : ℝ | ∃ q ∈ segment ℝ a.real.inPlane b.real.inPlane,
        d = dist p.real.inPlane q ^ 2} (segmentDistanceSq p a b : ℚ)) ∧
    c.hits a b margin = c.hits b a margin := by
  have reaches : (0 : ℝ) ≤ (c.radius + margin : ℚ) := Rat.cast_nonneg.mpr positive
  have least (p : Point ℚ) := isLeast_dist_sq p.real a.real b.real
  simp only [real_segmentDistanceSq] at least
  obtain ⟨attained, lower⟩ := least c.center
  rw [hits_iff]
  refine ⟨⟨?_, ?_⟩, ⟨?_, ?_⟩, fun p => ⟨isLeast_segmentDistanceSq p a b, least p⟩, ?_⟩
  · intro near
    obtain ⟨t, low, high, same⟩ := (isLeast_segmentDistanceSq c.center a b).1
    refine ⟨t, low, high, (dist_le_iff reaches).mpr ?_⟩
    rwa [dist_sq_inPlane, real_distanceSq, ← same]
  · intro found
    obtain ⟨t, low, high, near⟩ := found
    have inside : (a.along b t).real.inPlane ∈ segment ℝ a.real.inPlane b.real.inPlane :=
      mem_segment_inPlane.mpr ⟨t, by exact_mod_cast low, by exact_mod_cast high, by rw [real_along]⟩
    exact le_trans (lower ⟨_, inside, rfl⟩) ((dist_le_iff reaches).mp near)
  · intro near
    obtain ⟨q, inside, same⟩ := attained
    exact ⟨q, inside, (dist_le_iff reaches).mpr (same ▸ near)⟩
  · intro found
    obtain ⟨q, inside, near⟩ := found
    exact le_trans (lower ⟨q, inside, rfl⟩) ((dist_le_iff reaches).mp near)
  · rw [Bool.eq_iff_iff, hits_iff, hits_iff, segmentDistanceSq_comm]

/-- A circle above the middle of a segment that the margin just reaches. -/
theorem touch_above_the_middle :
    let c : Circle ℚ := ⟨1 / 2, 1, 3 / 4⟩
    0 ≤ c.radius + 1 / 4 ∧ c.hits ⟨0, 0⟩ ⟨1, 0⟩ (1 / 4) = true ∧
      ∃ t : ℚ, 0 ≤ t ∧ t ≤ 1 ∧
        dist (Point.along ⟨0, 0⟩ ⟨1, 0⟩ t).real.inPlane c.center.real.inPlane ≤
          (c.radius + 1 / 4 : ℚ) := by
  intro c
  have positive : 0 ≤ c.radius + 1 / 4 := by decide +kernel
  have hits : c.hits ⟨0, 0⟩ ⟨1, 0⟩ (1 / 4) = true := by decide +kernel
  exact ⟨positive, hits, (hits_iff_within_reach c ⟨0, 0⟩ ⟨1, 0⟩ (1 / 4) positive).1.mp hits⟩

end MotionRace.Geometry
