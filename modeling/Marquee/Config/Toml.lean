import Marquee.Config.Basic
import Marquee.Scene.Decode
import Marquee.Toml.Reader
import Marquee.Toml.Writer

/-!
# Configuration Files

A configuration is saved in full and read field by field: what a file leaves out keeps
its default, and what it has besides is ignored.
-/

namespace Marquee

open Decoder RecordReader Toml

/-! ### Reading -/

namespace EmoteSettings

/-- Settings that are written down in part or in full. -/
def decode : Decoder EmoteSettings :=
  decoder do
    let d : EmoteSettings := {}
    return ⟨← defaulted "size" (optional single) d.size,
      ← defaulted "depth_segments" word d.depthSegments,
      ← defaulted "url_template" text d.urlTemplate⟩

end EmoteSettings

namespace Spacing

/-- A spacing that is written down in part or in full. -/
def decode : Decoder Spacing :=
  decoder do
    let d : Spacing := {}
    return ⟨← defaulted "spacing_ratio" single d.ratio,
      ← defaulted "min_gap_ratio" single d.minGapRatio⟩

end Spacing

namespace FontPaths

/-- The paths that are written down; all others are absent. -/
def decode : Decoder FontPaths :=
  decoder do
    return ⟨← defaulted "regular" (optional text) none,
      ← defaulted "italic" (optional text) none, ← defaulted "bold" (optional text) none,
      ← defaulted "bold_italic" (optional text) none⟩

end FontPaths

namespace Config

/-- A camera whose place may be left out. -/
def camera? : Decoder Scene.Camera :=
  decoder do
    let d : Scene.Camera := {}
    return ⟨← defaulted "position" Space.Vec3.decode d.position⟩

/-- A configuration whose parts may be left out. -/
def decode : Decoder Config :=
  decoder do
    return ⟨← defaulted "geometry" Extrusion.decode {},
      ← defaulted "emotes" EmoteSettings.decode {}, ← defaulted "layout" Spacing.decode {},
      ← defaulted "fonts" FontPaths.decode {}, ← defaulted "camera" camera? {}⟩

/-- The configuration that a text holds. -/
def ofToml? (source : String) : Option Config :=
  Toml.read source >>= decode

/-! ### Saving -/

/-- A field that is written only if it has a value. -/
def present {α : Type} (key : String) (f : α → Plain) : Option α → List (String × Plain)
  | none => []
  | some a => [(key, f a)]

end Config

namespace Extrusion

/-- The parameters as fields of a section. -/
def toFields (g : Extrusion) : List (String × Plain) :=
  [("size", .single g.size), ("depth", .single g.depth),
   ("curve_segments", .word g.curveSegments), ("bevel_enabled", .boolean g.beveled),
   ("bevel_thickness", .single g.bevelThickness), ("bevel_size", .single g.bevelSize),
   ("bevel_offset", .single g.bevelOffset), ("bevel_segments", .word g.bevelSegments)]

end Extrusion

namespace EmoteSettings

/-- The settings as fields of a section. -/
def toFields (e : EmoteSettings) : List (String × Plain) :=
  Config.present "size" .single e.size ++
    [("depth_segments", .word e.depthSegments), ("url_template", .text e.urlTemplate)]

end EmoteSettings

namespace Spacing

/-- The spacing as fields of a section. -/
def toFields (p : Spacing) : List (String × Plain) :=
  [("spacing_ratio", .single p.ratio), ("min_gap_ratio", .single p.minGapRatio)]

end Spacing

namespace FontPaths

/-- The paths as fields of a section. -/
def toFields (p : FontPaths) : List (String × Plain) :=
  Config.present "regular" .text p.regular ++ Config.present "italic" .text p.italic ++
    Config.present "bold" .text p.bold ++ Config.present "bold_italic" .text p.boldItalic

end FontPaths

namespace Space.Vec3

/-- A point as fields of a section. -/
def toFields (p : Vec3) : List (String × Plain) :=
  [("x", .single p.x), ("y", .single p.y), ("z", .single p.z)]

end Space.Vec3

namespace Config

/-- A configuration in sections. -/
def sections (c : Config) : List Section :=
  [⟨["geometry"], c.geometry.toFields⟩, ⟨["emotes"], c.emotes.toFields⟩,
   ⟨["layout"], c.layout.toFields⟩, ⟨["fonts"], c.fonts.toFields⟩,
   ⟨["camera", "position"], c.camera.position.toFields⟩]

/-- A configuration as a text. -/
def toToml (c : Config) : String := Toml.write c.sections

end Config

end Marquee
