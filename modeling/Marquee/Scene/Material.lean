import Marquee.Color

/-!
# Materials and Textures

What scene nodes are drawn with: a pair of flat colors for extruded text, and a flat
color or a picture for a sprite.
-/

namespace Marquee.Scene

/-- The colors of the front and the sides of extruded text. -/
structure MaterialPair where
  front : Color
  side : Color
deriving DecidableEq

namespace MaterialPair

/-- The pair for a front color. -/
def ofColor (c : Color) : MaterialPair := ⟨c, c.sideShade⟩

end MaterialPair

/-- A decoded picture, by its address and measure. -/
structure Texture where
  url : String
  width : UInt32
  height : UInt32
deriving DecidableEq

namespace Texture

/-- Width over height; one for a picture without extent. -/
def aspect (t : Texture) : Float32 :=
  if t.height = 0 ∨ t.width = 0 then 1 else t.width.toFloat32 / t.height.toFloat32

/-- The number of bytes of its pixels, four to each. -/
def byteCount (t : Texture) : Nat :=
  t.width.toNat * t.height.toNat * 4

end Texture

/-- What a sprite is drawn with. -/
structure SpriteMaterial where
  color : Color
  texture : Option Texture
deriving DecidableEq

namespace SpriteMaterial

/-- A flat color. -/
def solid (c : Color) : SpriteMaterial := ⟨c, none⟩

/-- A picture, not tinted. -/
def textured (t : Texture) : SpriteMaterial := ⟨.white, some t⟩

end SpriteMaterial

end Marquee.Scene
