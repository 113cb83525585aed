import Marquee.Space.Transform

/-!
# Bounding Boxes

Boxes along the axes, given by two corners. A box whose upper corner lies below its
lower one along some axis is empty; `Box.empty` lies below along all of them, so
widening it to a point gives that point.
-/

namespace Marquee.Space

/-- The box between two corners. -/
structure Box where
  lower : Vec3
  upper : Vec3

namespace Box

/-- The box that holds nothing. -/
def empty : Box :=
  let top : Float32 := 1 / 0
  ⟨⟨top, top, top⟩, ⟨-top, -top, -top⟩⟩

/-- Whether the corners are crossed along some axis. -/
def isEmpty (b : Box) : Bool :=
  b.upper.x < b.lower.x || b.upper.y < b.lower.y || b.upper.z < b.lower.z

/-- The box widened to hold a point. -/
def widen (b : Box) (p : Vec3) : Box := ⟨b.lower.lower p, b.upper.upper p⟩

/-- The box widened to hold another; an empty one adds nothing. -/
def union (b other : Box) : Box :=
  if other.isEmpty then b else (b.widen other.lower).widen other.upper

/-- The box in the space of what holds it. -/
def transformed (b : Box) (t : Transform) : Box :=
  if b.isEmpty then b else (empty.widen (t.apply b.lower)).widen (t.apply b.upper)

/-- The middle of the box; the origin for an empty one. -/
def center (b : Box) : Vec3 :=
  if b.isEmpty then .zero else (b.lower.add b.upper).scale 0.5

/-- The extent along every axis; zero for an empty box. -/
def size (b : Box) : Vec3 :=
  if b.isEmpty then .zero else b.upper.sub b.lower

end Box

end Marquee.Space
