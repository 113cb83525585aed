import Marquee.Extrusion
import Marquee.Scene.Camera

/-!
# Configuration

What stays the same from one heading to the next. Everything has a default except the
regular font, without which nothing can be set.
-/

namespace Marquee

/-- How emotes are drawn and where their pictures are found. -/
structure EmoteSettings where
  /-- The edge of an emote; that of the glyphs if none is given. -/
  size : Option Float32 := none
  /-- The number of sprites stacked to give an emote depth. -/
  depthSegments : UInt32 := 25
  /-- The address of a picture, with a mark where the number of the emote belongs. -/
  urlTemplate : String :=
    "https://static-cdn.jtvnw.net/emoticons/v2/\x7bid\x7d/static/light/3.0"

namespace EmoteSettings

/-- A template with every mark replaced by an emote's number. -/
def fill (id : List Char) : List Char → List Char
  | '\x7b' :: 'i' :: 'd' :: '\x7d' :: s => id ++ fill id s
  | c :: s => c :: fill id s
  | [] => []

/-- The address of an emote's picture. -/
def urlFor (e : EmoteSettings) (id : String) : String :=
  String.ofList (fill id.toList e.urlTemplate.toList)

end EmoteSettings

/-- How runs and emotes are spaced along the row. -/
structure Spacing where
  /-- The width of a blank, as a part of the glyph size. -/
  ratio : Float32 := 0.4
  /-- The least gap on either side of a run or emote, as a part of that width. -/
  minGapRatio : Float32 := 0.13

/-- Where the fonts of the four styles are found. -/
structure FontPaths where
  regular : Option String := none
  italic : Option String := none
  bold : Option String := none
  boldItalic : Option String := none

/-- A configuration. -/
structure Config where
  geometry : Extrusion := {}
  emotes : EmoteSettings := {}
  layout : Spacing := {}
  fonts : FontPaths := {}
  camera : Scene.Camera := {}

end Marquee
