import Marquee.Font.Face
import Marquee.Scene.TextGeometry

/-!
# Typesetting a Run

The characters of a run stand along the baseline, each advancing the pen; those with ink
leave a glyph. The solid reaches from the plane of the baseline to the depth of the
extrusion. A bevel makes it grow by its size within the plane, and by its thickness in
front and behind; a solid without ink does not grow.
-/

namespace Marquee.Heading

open Font Scene Space

/-- The inked glyphs of some characters, with the pen at a given place. -/
def inked (metrics : Char → GlyphMetrics) (pen : Float32) : List Char → List GlyphBox
  | [] => []
  | c :: r =>
    let m := metrics c
    let rest := inked metrics (pen + m.advance) r
    if 0 < m.width ∧ 0 < m.height then
      ⟨c, pen + m.xmin, m.ymin, m.width, m.height⟩ :: rest
    else rest

/-- A box widened to hold a glyph extruded to a depth. -/
def widenByGlyph (depth : Float32) (b : Box) (g : GlyphBox) : Box :=
  (b.widen ⟨g.x, g.y, 0⟩).widen ⟨g.x + g.width, g.y + g.height, depth⟩

/-- The box around a bevel on the solid that fills a given box. -/
def bevel (p : Extrusion) (b : Box) : Box :=
  if p.beveled && !b.isEmpty then
    let grow := p.bevelSize + p.bevelOffset
    let margin : Vec3 := ⟨grow, grow, p.bevelThickness⟩
    ⟨b.lower.sub margin, b.upper.add margin⟩
  else b

/-- The solid of a run of text. -/
def typeset (text : String) (style : Style) (face : Face) (p : Extrusion) : TextGeometry :=
  let glyphs := inked (face.metrics · p.size) 0 text.toList
  ⟨text, style, p, glyphs, bevel p (glyphs.foldl (widenByGlyph p.depth) .empty)⟩

end Marquee.Heading
