/-!
# Points, segments and circles of the plane

Everything here is written over any number type with the four operations and a decidable order. On
floats it is the arithmetic the collision checks run; on exact numbers the same definitions are the
geometry they stand for. Sums and products are taken in the order written, which floats can tell.
-/

namespace MotionRace.Geometry

/-- A point of the plane. -/
structure Point (α : Type) where
  x : α
  y : α
  deriving Repr, BEq, DecidableEq, Inhabited

variable {α : Type} [Add α] [Sub α] [Mul α] [Div α] [OfNat α 0] [OfNat α 1]
  [LT α] [LE α] [DecidableLT α] [DecidableLE α]

/-- The nearest value between zero and one. A value that compares with neither stays as it is. -/
def clampUnit (t : α) : α :=
  if t < 0 then 0 else if 1 < t then 1 else t

/-- Where the foot of the perpendicular from `p` lies along the segment from `a` to `b`, as a share
of its length kept between zero and one; zero when the segment has no length. -/
def footShare (p a b : Point α) : α :=
  let dx := b.x - a.x
  let dy := b.y - a.y
  let lengthSq := dx * dx + dy * dy
  if 0 < lengthSq then clampUnit (((p.x - a.x) * dx + (p.y - a.y) * dy) / lengthSq) else 0

/-- The squared distance from `p` to the segment from `a` to `b`. -/
def segmentDistanceSq (p a b : Point α) : α :=
  let t := footShare p a b
  let ex := (p.x - a.x) - t * (b.x - a.x)
  let ey := (p.y - a.y) - t * (b.y - a.y)
  ex * ex + ey * ey

/-- A circular obstacle. -/
structure Circle (α : Type) where
  x : α
  y : α
  radius : α
  deriving Repr, BEq, DecidableEq

/-- The middle of a circle. -/
def Circle.center (c : Circle α) : Point α := ⟨c.x, c.y⟩

/-- Whether the segment from `a` to `b` comes within `radius + margin` of the middle of the circle.
Touching counts. -/
def Circle.hits (c : Circle α) (a b : Point α) (margin : α) : Bool :=
  let reach := c.radius + margin
  segmentDistanceSq c.center a b ≤ reach * reach

/-- A disc that a point may have to lie in. -/
structure Region (α : Type) where
  center : Point α
  radius : α
  deriving Repr, BEq, DecidableEq

/-- Whether a point lies in the disc, its edge included. -/
def Region.contains (r : Region α) (p : Point α) : Bool :=
  let dx := p.x - r.center.x
  let dy := p.y - r.center.y
  dx * dx + dy * dy ≤ r.radius * r.radius

end MotionRace.Geometry
