import Marquee.Document.Decode
import Marquee.Scene.Camera
import Marquee.Scene.Motion

/-!
# Reading Scene Values

Decoders for what may stand in a data file. Extrusion parameters and oscillations fall
back to their defaults field by field; everything else has to be complete.
-/

namespace Marquee

open Decoder RecordReader

namespace Style

def decode : Decoder Style := choice ofName?

end Style

namespace Color

def decode : Decoder Color :=
  decoder do
    return ⟨← required "r" byte, ← required "g" byte, ← required "b" byte⟩

end Color

namespace Extrusion

def decode : Decoder Extrusion :=
  decoder do
    let d : Extrusion := {}
    return {
      size := ← defaulted "size" single d.size
      depth := ← defaulted "depth" single d.depth
      curveSegments := ← defaulted "curve_segments" word d.curveSegments
      beveled := ← defaulted "bevel_enabled" boolean d.beveled
      bevelThickness := ← defaulted "bevel_thickness" single d.bevelThickness
      bevelSize := ← defaulted "bevel_size" single d.bevelSize
      bevelOffset := ← defaulted "bevel_offset" single d.bevelOffset
      bevelSegments := ← defaulted "bevel_segments" word d.bevelSegments }

end Extrusion

namespace Space

namespace Vec3

def decode : Decoder Vec3 :=
  decoder do
    return ⟨← required "x" single, ← required "y" single, ← required "z" single⟩

end Vec3

namespace Transform

def decode : Decoder Transform :=
  decoder do
    return ⟨← required "position" Vec3.decode, ← required "rotation" Vec3.decode,
      ← required "scale" Vec3.decode⟩

end Transform

namespace Box

def decode : Decoder Box :=
  decoder do
    return ⟨← required "min" Vec3.decode, ← required "max" Vec3.decode⟩

end Box

end Space

namespace Scene

open Space

namespace Camera

def decode : Decoder Camera :=
  decoder do
    return ⟨← required "position" Vec3.decode⟩

end Camera

namespace Wave

def decode : Decoder Wave := choice ofName?

end Wave

namespace AxisWave

def decode : Decoder AxisWave :=
  decoder do
    return ⟨← required "amplitude" single, ← required "frequency" single⟩

end AxisWave

namespace Oscillation

def decode : Decoder Oscillation :=
  decoder do
    return ⟨← defaulted "x" AxisWave.decode {}, ← defaulted "y" AxisWave.decode {},
      ← defaulted "z" AxisWave.decode {}⟩

end Oscillation

end Scene

end Marquee
