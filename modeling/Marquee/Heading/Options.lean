import Marquee.Font.Load

/-!
# Heading Options

What stays fixed while headings are set: the faces, the measures, and where the result
stands. The camera is carried along for those who place the result; setting a heading
does not look at it.
-/

namespace Marquee.Heading

open Font Scene Space

/-- What stays fixed while headings are set. -/
structure Options where
  camera : Camera := {}
  /-- Where the center of the row ends up. -/
  position : Vec3 := .zero
  fonts : Family
  geometry : Extrusion := {}
  layout : Spacing := {}
  emotes : EmoteSettings := {}

namespace Options

/-- The width of one blank. -/
def spacing (o : Options) : Float32 := o.geometry.size * o.layout.ratio

/-- The least gap on either side of a run or emote. -/
def minGap (o : Options) : Float32 := o.spacing * o.layout.minGapRatio

/-- The edge of an emote. -/
def emoteSize (o : Options) : Float32 := o.emotes.size.getD o.geometry.size

variable {m : Type → Type} [Monad m]

/-- The options that a configuration describes, with the fonts that it names. -/
def ofConfig (d : Files.Disk m) (c : Config) : m (Except Error Options) := do
  pure ((← Family.load d c.fonts).map fun fonts =>
    { camera := c.camera, fonts, geometry := c.geometry, layout := c.layout, emotes := c.emotes })

end Options

end Marquee.Heading
