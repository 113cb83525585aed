import Marquee.Event

/-!
# Faces and Families

A face measures characters at any size. A family has a regular face and perhaps others,
and finds one for every style: bold italic gives way to bold, then to italic, and every
style gives way to the regular face in the end, which is worth a warning.

## Main statements

* `Family.select_events` — a selection warns exactly when it falls back to the regular
  face for another style.
-/

namespace Marquee.Font

/-- The measure of one character, with y pointing up from the baseline. -/
structure GlyphMetrics where
  advance : Float32
  xmin : Float32
  ymin : Float32
  width : Float32
  height : Float32

/-- Anything that measures characters. -/
structure Face where
  name : String
  metrics : Char → Float32 → GlyphMetrics

/-- A regular face and the faces of other styles. -/
structure Family where
  regular : Face
  italic : Option Face := none
  bold : Option Face := none
  boldItalic : Option Face := none

namespace Family

/-- The face for a style, unless it is the regular one for want of another. -/
def own? (f : Family) : Style → Option Face
  | .regular => none
  | .italic => f.italic
  | .bold => f.bold
  | .boldItalic => f.boldItalic <|> f.bold <|> f.italic

/-- The face for a style, and what choosing it reports. -/
def select (f : Family) (style : Style) : Face × List Event :=
  match f.own? style with
  | some face => (face, [])
  | none =>
    (f.regular, if style = .regular then [] else [.faceMissing style f.regular.name])

/-- A missing face is reported, unless the style is the regular one. -/
theorem select_events (f : Family) (style : Style) :
    (f.select style).2 =
      if f.own? style = none ∧ style ≠ .regular then
        [.faceMissing style f.regular.name]
      else [] := by
  unfold select
  cases f.own? style with
  | some face => simp
  | none => by_cases h : style = .regular <;> simp [h]

end Family

end Marquee.Font
