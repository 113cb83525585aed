import Marquee.Markup.Escape
import Marquee.Markup.Leaf

/-!
# The Pen

The color and style in force while tokens are read. Style markers toggle: a marker
equal to the style in force closes it and brings back the one beneath, any other opens
its own style on top. Crossed markers therefore pile up, and nested ones cancel.
-/

namespace Marquee.Markup

/-- The color and style in force, and the styles beneath, the nearest first. -/
structure Pen where
  color : String
  style : Style
  beneath : List Style
deriving DecidableEq

namespace Pen

/-- The pen before anything is read. -/
def start : Pen := ⟨Escape.baseColor, .regular, []⟩

/-- Takes up a color. -/
def dip (p : Pen) (color : String) : Pen :=
  { p with color }

/-- Closes the style in force, or opens another on top of it. With nothing beneath,
closing brings back the regular style. -/
def toggle (p : Pen) (s : Style) : Pen :=
  if s = p.style then
    match p.beneath with
    | [] => { p with style := .regular }
    | t :: ts => { p with style := t, beneath := ts }
  else { p with style := s, beneath := p.style :: p.beneath }

/-- A style marker leaves the color as it is. -/
@[simp]
theorem toggle_color (p : Pen) (s : Style) : (p.toggle s).color = p.color := by
  unfold toggle
  split
  · split <;> rfl
  · rfl

/-- Toggling a style that is not in force twice changes nothing. -/
theorem toggle_toggle {p : Pen} {s : Style} (h : s ≠ p.style) : (p.toggle s).toggle s = p := by
  simp [toggle, h]

end Pen

end Marquee.Markup
