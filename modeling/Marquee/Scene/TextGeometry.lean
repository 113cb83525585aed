import Marquee.Extrusion
import Marquee.Space.Box
import Marquee.Style

/-!
# Text Geometry

The solid of one run of text: its inked glyphs side by side, and the box around them.
-/

namespace Marquee.Scene

open Space

/-- The place and extent of one inked glyph. -/
structure GlyphBox where
  char : Char
  x : Float32
  y : Float32
  width : Float32
  height : Float32

/-- The solid of a run of text. -/
structure TextGeometry where
  text : String
  style : Style
  params : Extrusion
  glyphs : List GlyphBox
  bounds : Box

namespace TextGeometry

/-- The extent along the line. -/
def width (g : TextGeometry) : Float32 := g.bounds.size.x

end TextGeometry

end Marquee.Scene
