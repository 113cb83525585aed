import Marquee.Space.Vector

/-!
# Transforms

Where a thing stands in the space of what holds it. Points are stretched, then moved;
the rotation is carried along for whoever draws and does not move points here, since
bounds are measured on unrotated layouts.
-/

namespace Marquee.Space

/-- Position, rotation by Euler angles in radians, and scale. -/
structure Transform where
  position : Vec3
  rotation : Vec3
  scale : Vec3

namespace Transform

/-- The transform that changes nothing. -/
def identity : Transform := ⟨.zero, .zero, .one⟩

/-- The transform that only moves. -/
def moved (position : Vec3) : Transform := { identity with position }

/-- A point in the space of what holds it. -/
def apply (t : Transform) (p : Vec3) : Vec3 := (p.mul t.scale).add t.position

end Transform

end Marquee.Space
