import Marquee.Space.Vector

/-!
# The Camera

The viewer that a heading is composed for.
-/

namespace Marquee.Scene

open Space

/-- A viewer, by its place. -/
structure Camera where
  position : Vec3 := ⟨0, 0, 1000⟩

namespace Camera

/-- The rotation about the x axis that leans text at a target back toward the viewer:
the ratio of height to depth between the two, taken for the angle itself, and zero
where the two lie at one depth. -/
def tiltToward (c : Camera) (target : Vec3) : Float32 :=
  let height := (target.y - c.position.y).abs
  let depth := (target.z - c.position.z).abs
  if depth == 0 then 0 else -(height / depth)

end Camera

end Marquee.Scene
