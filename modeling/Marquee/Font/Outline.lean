import Marquee.Font.Face

/-!
# Outline Faces

A face as a font file describes it: ink boxes in units of the em. At a size the boxes
are scaled and widened to whole pixels: the lower left corner is rounded down, and the
extent is rounded up after the part of a pixel that the ink begins late is added to it.
-/

namespace Marquee.Font

/-- The ink of a character and its advance, in units of the em. -/
structure Outline where
  advance : Float32
  xmin : Float32
  ymin : Float32
  xmax : Float32
  ymax : Float32

/-- A face described by outlines. -/
structure OutlineFace where
  unitsPerEm : Float32
  outline : Char → Outline

/-! ### Pixels -/

/-- The whole part of a number as a 32-bit word; the least word stands for what does
not fit. -/
def wholeWord (x : Float32) : Int32 :=
  if x < 2147483648 ∧ -2147483648 ≤ x then x.toInt32 else Int32.minValue

/-- The part of a number behind the point, with the sign of the number. -/
def fraction (x : Float32) : Float32 :=
  if x.abs < 8388608 then x - (wholeWord x).toFloat32 else x - x

/-- A fraction counted from the pixel below. -/
def fromBelow (x : Float32) : Float32 :=
  if x < 0 then x + 1 else x

/-- The pixel at or below a number. -/
def pixelBelow (x : Float32) : Int32 := wholeWord x.floor

/-- The pixel at or above a number. -/
def pixelAbove (x : Float32) : Int32 := wholeWord x.ceil

/-- A pixel count; a negative one wraps around at 64 bits. -/
def extent (n : Int32) : Float32 := n.toInt64.toUInt64.toFloat32

namespace Outline

/-- The measure of an outline when one unit has a given length. -/
def metrics (o : Outline) (unit : Float32) : GlyphMetrics :=
  let xmin := o.xmin * unit
  let ymin := o.ymin * unit
  let width := (o.xmax - o.xmin) * unit
  let height := (o.ymax - o.ymin) * unit
  let late := fromBelow (fraction xmin)
  let low := fromBelow (fraction (1 - fraction height - fraction ymin))
  { advance := unit * o.advance
    xmin := (pixelBelow xmin).toFloat32
    ymin := (pixelBelow ymin).toFloat32
    width := extent (pixelAbove (width + late))
    height := extent (pixelAbove (height + low)) }

end Outline

/-- The face that measures by outlines. -/
def OutlineFace.toFace (f : OutlineFace) (name : String) : Face :=
  ⟨name, fun c size => (f.outline c).metrics (size / f.unitsPerEm)⟩

end Marquee.Font
