import Marquee.Scene.Node

/-!
# Idle Motion

The slow sway of a heading: each axis of its rotation follows a sine or cosine of the
time passed.
-/

namespace Marquee.Scene

open Space

/-- The shape of an oscillation. -/
inductive Wave where
  | sin
  | cos
deriving DecidableEq

namespace Wave

/-- The name of a wave in files. -/
def name : Wave → String
  | sin => "sin"
  | cos => "cos"

/-- The wave with a given name. -/
def ofName? : String → Option Wave
  | "sin" => some sin
  | "cos" => some cos
  | _ => none

/-- The wave at a phase in radians. -/
def eval : Wave → Float32 → Float32
  | sin, phase => phase.sin
  | cos, phase => phase.cos

end Wave

/-- Amplitude in radians and angular frequency about one axis. -/
structure AxisWave where
  amplitude : Float32 := 0
  frequency : Float32 := 0

namespace AxisWave

/-- The angle after some time. -/
def sample (a : AxisWave) (elapsed : Float32) (wave : Wave) : Float32 :=
  wave.eval (elapsed * a.frequency) * a.amplitude

end AxisWave

/-- An oscillation about each axis; an axis that is not mentioned stays still. -/
structure Oscillation where
  x : AxisWave := {}
  y : AxisWave := {}
  z : AxisWave := {}

namespace Oscillation

/-- The rotation after some time. -/
def rotation (o : Oscillation) (elapsed : Float32) (wave : Wave) : Vec3 :=
  ⟨o.x.sample elapsed wave, o.y.sample elapsed wave, o.z.sample elapsed wave⟩

end Oscillation

namespace Group

/-- The group in the pose it has after floating for some time. -/
def float (g : Group) (elapsed : Float32) (wave : Wave) (o : Oscillation) : Group :=
  { g with transform := { g.transform with rotation := o.rotation elapsed wave } }

end Group

end Marquee.Scene
