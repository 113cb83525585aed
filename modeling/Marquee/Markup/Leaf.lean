import Marquee.Style

/-!
# Markup Leaves

Parsed markup is flat: color and style are settled while it is read and stamped onto
every leaf, so nothing later has to keep track of scope.
-/

namespace Marquee.Markup

/-- A run of text or an emote, with the color and style in force where it stood. -/
inductive Leaf where
  | text (value : String) (color : String) (style : Style)
  | emote (id : String) (color : String) (style : Style)
deriving DecidableEq

namespace Leaf

/-- The name of the color in force at a leaf. -/
def color : Leaf → String
  | text _ color _ | emote _ color _ => color

/-- The style in force at a leaf. -/
def style : Leaf → Style
  | text _ _ style | emote _ _ style => style

end Leaf

end Marquee.Markup
