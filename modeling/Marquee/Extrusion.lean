import Marquee.Json.Printer

/-!
# Extrusion Parameters

How glyph outlines become solid text, and the one-line form of the parameters that
stored geometry is keyed by.
-/

namespace Marquee

/-- The parameters of extruded text. -/
structure Extrusion where
  /-- The glyph size, in scene units. -/
  size : Float32 := 100
  /-- How far the text reaches along the z axis. -/
  depth : Float32 := 50
  curveSegments : UInt32 := 12
  beveled : Bool := false
  bevelThickness : Float32 := 10
  bevelSize : Float32 := 8
  bevelOffset : Float32 := 0
  bevelSegments : UInt32 := 3

namespace Extrusion

open Json (Value)

/-- The parameters as a record, in the order of the fields. -/
def toJson (e : Extrusion) : Value :=
  .record
    [("size", .single e.size), ("depth", .single e.depth),
     ("curve_segments", .whole e.curveSegments.toNat), ("bevel_enabled", .boolean e.beveled),
     ("bevel_thickness", .single e.bevelThickness), ("bevel_size", .single e.bevelSize),
     ("bevel_offset", .single e.bevelOffset),
     ("bevel_segments", .whole e.bevelSegments.toNat)]

/-- The form that tells parameters apart in keys. -/
def fingerprint (e : Extrusion) : String := e.toJson.compact

end Extrusion

end Marquee
