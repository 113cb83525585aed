import Marquee.Heading.Typeset
import Marquee.Proofs.Space.Enclosure

/-!
# The Ink of a Run

A run of text is set character by character, and three things are carried along: the pen, the
glyphs, and the box around them. Read off the characters alone they are as follows. The pen in
front of a character is the sum of the advances of all characters before it, in order and
rounded one by one; those without ink count as well. The glyphs are the characters with ink,
each as far from the pen as its measure says. The box is the smallest one around the rectangles
of all glyphs, in the plane of the baseline and at the depth of the extrusion, on whichever side
of the plane that is. A bevel moves its sides apart, unless there is no ink.

## Main statements

* `inked_eq` — the glyphs, read off the characters;
* `encloses_glyphs` — the box around the corners of the glyphs;
* `solid_of_ink` — the glyphs and the box of a run of text.
-/

namespace Marquee

open Font Number Scene Space

namespace Heading

/-! ### Glyphs -/

/-- Whether a character of some measure leaves ink. -/
def HasInk (m : GlyphMetrics) : Prop := 0 < m.width ∧ 0 < m.height

instance (m : GlyphMetrics) : Decidable (HasInk m) :=
  inferInstanceAs (Decidable (0 < m.width ∧ 0 < m.height))

/-- Where the pen is behind some characters: their advances added up from the left. -/
def penBehind (metrics : Char → GlyphMetrics) (cs : List Char) : Float32 :=
  cs.foldl (fun x c => x + (metrics c).advance) 0

/-- The glyph of a character behind some others. -/
def glyphBehind (metrics : Char → GlyphMetrics) (before : List Char) (c : Char) : GlyphBox :=
  ⟨c, penBehind metrics before + (metrics c).xmin, (metrics c).ymin, (metrics c).width,
    (metrics c).height⟩

/-- The glyphs of some text: its characters with ink, in order, each behind all that come before
it. -/
def glyphsOf (metrics : Char → GlyphMetrics) (cs : List Char) : List GlyphBox :=
  (cs.zipIdx.filter fun c => HasInk (metrics c.1)).map fun c =>
    glyphBehind metrics (cs.take c.2) c.1

/-- One more character takes the pen as far as the character advances. -/
theorem penBehind_concat (metrics : Char → GlyphMetrics) (cs : List Char) (c : Char) :
    penBehind metrics (cs ++ [c]) = penBehind metrics cs + (metrics c).advance :=
  List.foldl_concat ..

/-- The glyphs of the rest of some text, with the pen behind what comes before. -/
theorem inked_behind (metrics : Char → GlyphMetrics) (before cs : List Char) :
    inked metrics (penBehind metrics before) cs =
      ((cs.zipIdx before.length).filter fun c => HasInk (metrics c.1)).map fun c =>
        glyphBehind metrics ((before ++ cs).take c.2) c.1 := by
  induction cs generalizing before with
  | nil => rfl
  | cons c cs ih =>
    have hrest := ih (before ++ [c])
    rw [penBehind_concat, List.length_append, List.length_singleton, List.append_assoc,
      List.singleton_append] at hrest
    rw [inked, hrest, List.zipIdx_cons]
    split
    · next ink =>
      have ink : HasInk (metrics c) := ink
      rw [List.filter_cons_of_pos (by simpa using ink), List.map_cons, List.take_left]
      rfl
    · next noInk =>
      have noInk : ¬ HasInk (metrics c) := noInk
      rw [List.filter_cons_of_neg (by simpa using noInk)]

/-- **The glyphs of some text** are those of its characters with ink. -/
theorem inked_eq (metrics : Char → GlyphMetrics) (cs : List Char) :
    inked metrics 0 cs = glyphsOf metrics cs :=
  inked_behind metrics [] cs

/-- A text has no glyphs if none of its characters has ink. -/
theorem glyphsOf_eq_nil_iff {metrics : Char → GlyphMetrics} {cs : List Char} :
    glyphsOf metrics cs = [] ↔ ∀ c ∈ cs, ¬ HasInk (metrics c) := by
  rw [glyphsOf, List.map_eq_nil_iff, List.filter_eq_nil_iff, List.forall_mem_zipIdx,
    List.forall_mem_iff_getElem]
  simp only [decide_eq_true_iff]

/-! ### The solid -/

/-- The corners of a glyph that a box is widened by. -/
def corners (depth : Float32) (g : GlyphBox) : List Vec3 :=
  [⟨g.x, g.y, 0⟩, ⟨g.x + g.width, g.y + g.height, depth⟩]

/-- Whether a box holds the rectangle of a glyph, in the plane of the baseline and at some
depth. -/
def HoldsGlyph (b : Box) (depth : Float32) (g : GlyphBox) : Prop :=
  ∀ z ∈ [0, depth], b.Holds ⟨g.x, g.y, z⟩ ∧ b.Holds ⟨g.x + g.width, g.y + g.height, z⟩

/-- The sums of a run of text stay finite: the corners of its glyphs, and the box around them
with its bevel. -/
structure SumsFinite (s : TextGeometry) : Prop where
  corners : ∀ g ∈ s.glyphs, ∀ p ∈ corners s.params.depth g, p.Finite
  bounds : s.glyphs ≠ [] → s.bounds.Finite

instance (s : TextGeometry) : Decidable (SumsFinite s) :=
  decidable_of_iff ((∀ g ∈ s.glyphs, ∀ p ∈ corners s.params.depth g, p.Finite) ∧
    (s.glyphs ≠ [] → s.bounds.Finite)) ⟨fun h => ⟨h.1, h.2⟩, fun h => ⟨h.corners, h.bounds⟩⟩

variable {depth : Float32} {g : GlyphBox} {gs : List GlyphBox} {b : Box}

/-- Two corners are enough, as the sides of a box are along the axes. -/
theorem holdsGlyph_iff : HoldsGlyph b depth g ↔ ∀ p ∈ corners depth g, b.Holds p := by
  simp only [HoldsGlyph, corners, List.forall_mem_cons, Box.holds_iff]
  constructor
  · rintro ⟨⟨first, -⟩, ⟨-, second⟩, -⟩
    exact ⟨first, second, List.forall_mem_nil _⟩
  · rintro ⟨⟨hx, hy, hz⟩, ⟨hx', hy', hz'⟩, -⟩
    exact ⟨⟨⟨hx, hy, hz⟩, hx', hy', hz⟩, ⟨⟨hx, hy, hz'⟩, hx', hy', hz'⟩, List.forall_mem_nil _⟩

/-- A box holds some glyphs if it holds the corners of all of them. -/
theorem holdsGlyphs_iff : (∀ g ∈ gs, HoldsGlyph b depth g) ↔
    ∀ p ∈ gs.flatMap (corners depth), b.Holds p := by
  simp only [holdsGlyph_iff, List.forall_mem_flatMap]

/-- A box is widened by glyphs corner by corner. -/
theorem foldl_widenByGlyph (depth : Float32) (b : Box) (gs : List GlyphBox) :
    gs.foldl (widenByGlyph depth) b = (gs.flatMap (corners depth)).foldl Box.widen b := by
  rw [List.foldl_flatMap]
  rfl

/-- **The box around some glyphs.** -/
theorem encloses_glyphs (hne : gs ≠ []) (finite : ∀ g ∈ gs, ∀ p ∈ corners depth g, p.Finite) :
    Encloses (gs.flatMap (corners depth)) (gs.foldl (widenByGlyph depth) .empty) := by
  obtain ⟨g, gs, rfl⟩ := List.exists_cons_of_ne_nil hne
  rw [foldl_widenByGlyph]
  exact encloses_points (List.cons_ne_nil _ _) (List.forall_mem_flatMap.2 finite)

/-- How far a bevel moves the sides of a box. -/
def margin (p : Extrusion) : Vec3 :=
  ⟨p.bevelSize + p.bevelOffset, p.bevelSize + p.bevelOffset, p.bevelThickness⟩

/-- The empty box has no bevel. -/
theorem bevel_empty (p : Extrusion) : bevel p .empty = .empty := by
  simp [bevel, isEmpty_empty]

/-- A bevel moves the sides of a box that is not empty by its margin, if there is one. -/
theorem bevel_of_not_isEmpty (p : Extrusion) (hb : ¬ b.isEmpty) : bevel p b =
    if p.beveled then ⟨b.lower.sub (margin p), b.upper.add (margin p)⟩ else b := by
  simp [bevel, hb, margin]

/-- A solid with the empty box has no width. -/
theorem width_of_empty {s : TextGeometry} (hs : s.bounds = .empty) : s.width = 0 := by
  rw [TextGeometry.width, hs, Box.size, if_pos isEmpty_empty]
  rfl

/-- A bevel that does not point inwards leaves a box with ink where it was. -/
theorem within_bevel {p : Extrusion} (hb : ¬ b.isEmpty) (finite : b.Finite)
    (finite' : (bevel p b).Finite) (outwards : p.beveled → ∀ i, 0 ≤ (margin p).along i) :
    b.Within (bevel p b) := by
  rw [bevel_of_not_isEmpty p hb] at finite' ⊢
  split_ifs at finite' ⊢ with beveled
  · exact Box.within_grown (outwards beveled) finite'
  · exact fun i => ⟨le_rfl_of_isFinite (finite.1 i), le_rfl_of_isFinite (finite.2 i)⟩

/-- **A run of text is its ink.** The glyphs of its solid are those of its characters with ink, in
order. Where the sums stay finite, its box without a bevel is the smallest one around the
rectangles of all glyphs, in the plane of the baseline and at the depth of the extrusion, with
its corners in order whatever the sign of the depth; a bevel moves all sides by its margin. A run
without ink has the empty box and no width, with a bevel or not.

Where the margin of the bevel does not point inwards, the box is empty only then, and it holds
all glyphs. -/
theorem solid_of_ink (text : String) (style : Style) (face : Face) (p : Extrusion)
    (finite : SumsFinite (typeset text style face p)) :
    let metrics := (face.metrics · p.size)
    let s := typeset text style face p
    let flat := (typeset text style face { p with beveled := false }).bounds
    let blank := ∀ c ∈ text.toList, ¬ HasInk (metrics c)
    s.glyphs = glyphsOf metrics text.toList ∧
    (blank → s.bounds = .empty ∧ s.width = 0) ∧
    (¬ blank → (∀ g ∈ s.glyphs, HoldsGlyph flat p.depth g) ∧
      (∀ b, (∀ g ∈ s.glyphs, HoldsGlyph b p.depth g) → flat.Within b) ∧
      (∀ i, flat.lower.along i ≤ flat.upper.along i) ∧
      s.bounds =
        if p.beveled then ⟨flat.lower.sub (margin p), flat.upper.add (margin p)⟩ else flat) ∧
    ((p.beveled → ∀ i, 0 ≤ (margin p).along i) →
      (s.bounds = .empty ↔ blank) ∧ (s.bounds.isEmpty ↔ blank) ∧
        ∀ g ∈ s.glyphs, HoldsGlyph s.bounds p.depth g) := by
  intro metrics s flat blank
  have hglyphs : s.glyphs = glyphsOf metrics text.toList := inked_eq _ _
  have hblank : blank ↔ s.glyphs = [] := by rw [hglyphs, glyphsOf_eq_nil_iff]
  have hflat : flat = s.glyphs.foldl (widenByGlyph p.depth) .empty := rfl
  have hbounds : s.bounds = bevel p flat := rfl
  rcases eq_or_ne s.glyphs [] with none | some
  · have hempty : s.bounds = .empty := by rw [hbounds, hflat, none, List.foldl_nil, bevel_empty]
    have hwidth : s.width = 0 := width_of_empty hempty
    have hblank : blank := hblank.2 none
    refine ⟨hglyphs, fun _ => ⟨hempty, hwidth⟩, fun h => absurd hblank h, fun _ => ?_⟩
    rw [hempty, none]
    exact ⟨iff_of_true rfl hblank, iff_of_true isEmpty_empty hblank, fun g hg => by cases hg⟩
  · have hblank : ¬ blank := mt hblank.1 some
    have hpoints : ∀ q ∈ s.glyphs.flatMap (corners p.depth), q.Finite :=
      List.forall_mem_flatMap.2 finite.corners
    have around : Encloses (s.glyphs.flatMap (corners p.depth)) flat :=
      encloses_glyphs some finite.corners
    have fflat := around.finite hpoints
    obtain ⟨q, hq, -⟩ := around.lower .x
    have ordered := (around.holds q hq).ordered fflat (hpoints q hq)
    have visible := not_isEmpty_of_ordered fflat ordered
    refine ⟨hglyphs, fun h => absurd h hblank, fun _ => ⟨holdsGlyphs_iff.2 around.holds,
      fun b holds => around.within (holdsGlyphs_iff.1 holds), ordered,
      bevel_of_not_isEmpty p visible⟩, fun outwards => ?_⟩
    have fbounds := finite.bounds some
    have within : flat.Within s.bounds := within_bevel visible fflat fbounds outwards
    have holds : ∀ q ∈ s.glyphs.flatMap (corners p.depth), s.bounds.Holds q := fun q hq =>
      (around.holds q hq).mono within fflat fbounds (hpoints q hq)
    have visible := not_isEmpty_of_ordered fbounds ((holds q hq).ordered fbounds (hpoints q hq))
    refine ⟨iff_of_false (fun h => ?_) hblank, iff_of_false visible hblank,
      holdsGlyphs_iff.2 holds⟩
    rw [h] at visible
    exact visible isEmpty_empty

/-- A face that sets its text backwards: blanks lead to the left, and ink stands left of the
pen. -/
def backward : Face :=
  ⟨"backward", fun c size => if c = ' ' then ⟨-size, 0, 0, 0, 0⟩
    else ⟨size * -0.5, -size, size * -0.25, size, size⟩⟩

/-- Text that is set backwards, and extruded the other way. -/
theorem solid_of_backward_ink :
    let s := typeset "a bc" .regular backward { depth := -20, beveled := true }
    s.glyphs.length = 3 ∧ ¬ s.bounds.isEmpty ∧ ∀ g ∈ s.glyphs, HoldsGlyph s.bounds (-20) g := by
  intro s
  obtain ⟨-, -, -, grown⟩ := solid_of_ink "a bc" .regular backward
    { depth := -20, beveled := true } (by decide +kernel)
  obtain ⟨-, hempty, holds⟩ := grown (by decide +kernel)
  have ink : HasInk (backward.metrics 'a' 100) := by decide +kernel
  exact ⟨by decide +kernel, mt hempty.1 fun blank => blank 'a' (by decide) ink, holds⟩

end Heading

end Marquee
