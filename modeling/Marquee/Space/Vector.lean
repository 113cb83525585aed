/-!
# Vectors

Points and offsets in space, in single precision. Every operation works on the three
axes apart.
-/

namespace Marquee.Space

/-- The smaller of two numbers; what is not a number gives way to the other. -/
def lesser (a b : Float32) : Float32 :=
  if a.isNaN then b else if b < a then b else a

/-- The larger of two numbers; what is not a number gives way to the other. -/
def greater (a b : Float32) : Float32 :=
  if a.isNaN then b else if a < b then b else a

/-- A point, or an offset between points. -/
structure Vec3 where
  x : Float32
  y : Float32
  z : Float32

namespace Vec3

/-- The origin. -/
def zero : Vec3 := ⟨0, 0, 0⟩

/-- One along every axis. -/
def one : Vec3 := ⟨1, 1, 1⟩

/-- Joins two vectors axis by axis. -/
def map₂ (f : Float32 → Float32 → Float32) (a b : Vec3) : Vec3 :=
  ⟨f a.x b.x, f a.y b.y, f a.z b.z⟩

/-- The sum. -/
def add (a b : Vec3) : Vec3 := map₂ (· + ·) a b

/-- The difference. -/
def sub (a b : Vec3) : Vec3 := map₂ (· - ·) a b

/-- The product axis by axis. -/
def mul (a b : Vec3) : Vec3 := map₂ (· * ·) a b

/-- The lesser coordinate along every axis. -/
def lower (a b : Vec3) : Vec3 := map₂ lesser a b

/-- The greater coordinate along every axis. -/
def upper (a b : Vec3) : Vec3 := map₂ greater a b

/-- The vector stretched by a factor. -/
def scale (a : Vec3) (s : Float32) : Vec3 := ⟨a.x * s, a.y * s, a.z * s⟩

end Vec3

end Marquee.Space
