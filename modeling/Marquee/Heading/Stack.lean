import Marquee.Heading.Options
import Marquee.Scene.Node

/-!
# Emote Stacks

A flat picture is given depth by sprites of it one behind the other. Before the picture
is there, a single white square keeps its place.

## Main statements

* `Stack.length_sprites` — a stack has as many sprites as it has segments, and one if
  it has none.
-/

namespace Marquee.Heading

open Scene Space

/-- The measures of a stack. -/
structure Stack where
  /-- The edge of a sprite; its height follows the picture. -/
  size : Float32
  /-- How far the stack reaches. -/
  depth : Float32
  segments : UInt32

namespace Stack

/-- The stacks that some options ask for. -/
def ofOptions (o : Options) : Stack :=
  ⟨o.emoteSize, o.geometry.depth, o.emotes.depthSegments⟩

/-- The number of sprites: never none. -/
def count (s : Stack) : UInt32 := if s.segments = 0 then 1 else s.segments

/-- A sprite that stands on its lower left corner, at some depth. -/
def sprite (width height z : Float32) (material : SpriteMaterial) (placeholder : Bool) : Sprite :=
  { transform := { Transform.identity with position := ⟨0, 0, z⟩, scale := ⟨width, height, 1⟩ }
    centerX := 0
    centerY := 0
    material
    placeholder }

/-- The sprites of a picture, the nearest to the baseline first. -/
def sprites (s : Stack) (t : Texture) : List Node :=
  let step := s.depth / s.count.toFloat32
  let height := s.size / t.aspect
  (List.range s.count.toNat).map fun i =>
    .sprite (sprite s.size height ((UInt32.ofNat i).toFloat32 * step) (.textured t) false)

/-- What stands for a picture that is not there yet. -/
def placeholder (s : Stack) : Node :=
  .sprite (sprite s.size s.size 0 (.solid .white) true)

/-- A picture has as many sprites as its stack has layers. -/
theorem length_sprites (s : Stack) (t : Texture) : (s.sprites t).length = s.count.toNat := by
  simp [sprites]

/-- A stack has at least one layer, however many were asked for. -/
theorem count_pos (s : Stack) : 0 < s.count.toNat := by
  unfold count
  split
  · decide
  · rename_i h
    exact Nat.pos_of_ne_zero fun hz => h (UInt32.toNat_inj.1 hz)

end Stack

end Marquee.Heading
