import Marquee.Error
import Marquee.Scene.Material

/-!
# Pictures

What arrives as a picture, before it is a texture.
-/

namespace Marquee.Fetch

/-- Bytes that were sent as a picture. -/
inductive Picture where
  /-- A picture of some measure, without a mark on it. -/
  | blank (width height : UInt32)
  /-- Bytes that are no picture. -/
  | broken

namespace Picture

/-- The texture that a picture becomes under its address. -/
def decode (url : String) : Picture → Except Error Scene.Texture
  | blank width height => .ok ⟨url, width, height⟩
  | broken => .error (.texture "failed to decode image" url)

end Picture

end Marquee.Fetch
