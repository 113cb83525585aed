/-!
# Typeface Styles

Four styles, three of which have a marker: a run of one, two or three stars.

## Main statements

* `Style.ofMarkerLength?_eq_some_iff` — a run length names a style exactly when it is
  that style's marker length and not zero, so every style but the regular one has
  one marker.
-/

namespace Marquee

/-- The face a run of text is drawn in. -/
inductive Style where
  | regular
  | italic
  | bold
  | boldItalic
deriving DecidableEq, Inhabited

namespace Style

/-- Every style, the plain one first. -/
def all : List Style := [regular, italic, bold, boldItalic]

/-- The name a style has in files, logs and listings. -/
def name : Style → String
  | regular => "REGULAR"
  | italic => "ITALIC"
  | bold => "BOLD"
  | boldItalic => "BOLD_ITALIC"

/-- The style with a given name. -/
def ofName? (s : String) : Option Style :=
  all.find? (·.name == s)

/-- The number of stars that toggles a style; the regular style has no marker. -/
def markerLength : Style → Nat
  | regular => 0
  | italic => 1
  | bold => 2
  | boldItalic => 3

/-- The style that a run of one to three stars toggles. -/
def ofMarkerLength? : Nat → Option Style
  | 1 => some italic
  | 2 => some bold
  | 3 => some boldItalic
  | _ => none

/-- A run of stars is a marker if it is as long as that of some style; no run of none is. -/
theorem ofMarkerLength?_eq_some_iff {n : Nat} {s : Style} :
    ofMarkerLength? n = some s ↔ s.markerLength = n ∧ n ≠ 0 := by
  constructor
  · intro h
    unfold ofMarkerLength? at h
    split at h <;> simp_all <;> subst h <;> rfl
  · rintro ⟨rfl, h⟩
    cases s <;> simp_all [markerLength, ofMarkerLength?]

end Style

end Marquee
