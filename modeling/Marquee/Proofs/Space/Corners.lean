import Marquee.Proofs.Space.Enclosure

/-!
# The Corners of a Transformed Box

A box is transformed by two of its corners only, the lower and the upper one. A transform maps the
axes apart, and along each of them it keeps the order or reverses it, rounding included; so what
lies between the ends of a box along an axis comes to lie between their images, whichever of
them is the lesser now. Then the images of the two corners hold those of all points of the box
between them, those of the other six corners among them.

## Main statements

* `Spans.holds_apply` — a transformed box holds the images of all points;
* `encloses_corners`, `Encloses.transformed` — its sides touch images of corners;
* `transformed_hull` — it is the smallest box around the images of all eight corners.
-/

namespace Marquee.Space

open Number

/-- The eight corners of a box: along every axis, one of its two ends. -/
def Box.corners (b : Box) : List Vec3 :=
  [b.lower.x, b.upper.x].flatMap fun x => [b.lower.y, b.upper.y].flatMap fun y =>
    [b.lower.z, b.upper.z].map fun z => ⟨x, y, z⟩

section Corners

variable {b : Box} {p : Vec3} {t : Transform} {s : NonemptyInterval (Axis → ℚ)} {i : Axis}
  {ps : List Vec3} {q r w : ℚ}

/-- A corner has along each axis the lower or the upper coordinate. -/
theorem Box.mem_corners :
    p ∈ b.corners ↔ ∀ i, p.along i = b.lower.along i ∨ p.along i = b.upper.along i := by
  obtain ⟨x, y, z⟩ := p
  simp only [corners, List.mem_flatMap, List.mem_map, List.mem_pair, Vec3.mk.injEq]
  constructor
  · rintro ⟨_, hx, _, hy, _, hz, rfl, rfl, rfl⟩ i
    cases i <;> assumption
  · intro h
    exact ⟨x, h .x, y, h .y, z, h .z, rfl, rfl, rfl⟩

/-- The lower corner is one of the eight. -/
theorem Box.lower_mem_corners (b : Box) : b.lower ∈ b.corners :=
  mem_corners.2 fun _ => .inl rfl

/-- So is the upper one. -/
theorem Box.upper_mem_corners (b : Box) : b.upper ∈ b.corners :=
  mem_corners.2 fun _ => .inr rfl

/-- The points of a finite box are finite. -/
theorem Box.Holds.finite (holds : b.Holds p) (finite : b.Finite) : p.Finite := fun i =>
  isFinite_of_between (finite.1 i) (finite.2 i) (holds i).1 (holds i).2

/-- The corners of a box that is not empty are in order. -/
theorem Spans.ordered (h : Spans b s) : ∀ i, b.lower.along i ≤ b.upper.along i := by
  intro i
  rw [le_iff_value (h.finite.1 i) (h.finite.2 i)]
  have hle : b.lower.place ≤ b.upper.place := by
    rw [h.lower, h.upper]
    exact s.fst_le_snd
  exact hle i

/-- Such a box holds its corners. -/
theorem Spans.holds_corner (h : Spans b s) (hp : p ∈ b.corners) : b.Holds p := by
  intro i
  rcases Box.mem_corners.1 hp i with heq | heq
  · rw [heq]
    exact ⟨le_rfl_of_isFinite (h.finite.1 i), h.ordered i⟩
  · rw [heq]
    exact ⟨h.ordered i, le_rfl_of_isFinite (h.finite.2 i)⟩

/-- The points of a box lie in the intervals that it measures. -/
theorem Spans.place_mem (h : Spans b s) (holds : b.Holds p) (i : Axis) :
    p.place i ∈ Set.uIcc (s.fst i) (s.snd i) := by
  have hp := holds.finite h.finite
  have hlower := (le_iff_value (h.finite.1 i) (hp i)).1 (holds i).1
  have hupper := (le_iff_value (hp i) (h.finite.2 i)).1 (holds i).2
  rw [← h.lower, ← h.upper]
  exact Set.mem_uIcc.2 (.inl ⟨hlower, hupper⟩)

/-- **What lies between coordinates that stay finite** stays finite: each of the two steps keeps
it between. -/
theorem Carries.between (hq : Carries t i q) (hr : Carries t i r) (hw : w ∈ Set.uIcc q r) :
    Carries t i w := by
  have hstretched := Set.mem_image_of_mem (· * value (t.scale.along i)) hw
  rw [Set.image_mul_const_uIcc] at hstretched
  have hmoved := Set.mem_image_of_mem (· + value (t.position.along i))
    (nearest_mono.mapsTo_uIcc hstretched)
  rw [Set.image_add_const_uIcc] at hmoved
  exact ⟨hq.scale, hq.position, inRange_of_mem_uIcc hq.stretched hr.stretched hstretched,
    inRange_of_mem_uIcc hq.moved hr.moved hmoved⟩

/-- What lies between two coordinates comes to lie between their images. -/
theorem carry_mem_uIcc (t : Transform) (i : Axis) (hw : w ∈ Set.uIcc q r) :
    carry t i w ∈ Set.uIcc (carry t i q) (carry t i r) := by
  rcases monotone_or_antitone_carry t i with mono | anti
  · exact mono.mapsTo_uIcc hw
  · exact anti.mapsTo_uIcc hw

/-- **A transformed box** holds the images of all points of the box. -/
theorem Spans.holds_apply (h : Spans b s) (fits : Fits t s) (holds : b.Holds p) :
    (b.transformed t).Holds (t.apply p) := by
  have hplace (i : Axis) := h.place_mem holds i
  have finite : (t.apply p).Finite := (finite_apply_iff (holds.finite h.finite)).2 fun i =>
    (fits i).1.between (fits i).2 (hplace i)
  obtain ⟨⟨flower, fupper⟩, lower, upper⟩ := h.transformed fits
  intro i
  obtain ⟨hlower, hupper⟩ := carry_mem_uIcc t i (hplace i)
  rw [le_iff_value (flower i) (finite i), le_iff_value (finite i) (fupper i)]
  change (b.transformed t).lower.place i ≤ (t.apply p).place i ∧
    (t.apply p).place i ≤ (b.transformed t).upper.place i
  rw [lower, upper, place_apply finite]
  exact ⟨hlower, hupper⟩

/-- A transformed box touches the images of the corners that it is made of. -/
theorem encloses_transformed (visible : ¬ b.isEmpty) (hlower : (t.apply b.lower).Finite)
    (hupper : (t.apply b.upper).Finite) :
    Encloses [t.apply b.lower, t.apply b.upper] (b.transformed t) := by
  rw [Box.transformed, if_neg visible]
  exact encloses_points (List.cons_ne_nil _ _)
    (List.forall_mem_cons.2 ⟨hlower, List.forall_mem_singleton.2 hupper⟩)

/-- Along each axis an image is known from the coordinate there. -/
theorem Reached.apply (reached : Reached ps p) (t : Transform) :
    Reached (ps.map t.apply) (t.apply p) := by
  intro i
  obtain ⟨q, hq, heq⟩ := reached i
  refine ⟨t.apply q, List.mem_map_of_mem hq, ?_⟩
  rw [along_apply, along_apply, heq]

/-- **The box around some points**, transformed, is the box around their images. -/
theorem Encloses.transformed (encloses : Encloses ps b)
    (finite : ∀ p ∈ ps, (t.apply p).Finite) : Encloses (ps.map t.apply) (b.transformed t) := by
  have visible : ¬ b.isEmpty := encloses.not_isEmpty fun p hp => finite_of_apply (finite p hp)
  have images : ∀ q ∈ ps.map t.apply, q.Finite := List.forall_mem_map.2 finite
  have reached : Reached (ps.map t.apply) (t.apply b.lower) := Reached.apply encloses.lower t
  have reached' : Reached (ps.map t.apply) (t.apply b.upper) := Reached.apply encloses.upper t
  have hlower := reached.finite images
  have hupper := reached'.finite images
  obtain ⟨spans, fits⟩ := spans_of_apply visible hlower hupper
  refine (encloses_transformed visible hlower hupper).of_reached ?_ ?_
  · exact List.forall_mem_cons.2 ⟨reached, List.forall_mem_singleton.2 reached'⟩
  · exact List.forall_mem_map.2 fun p hp => spans.holds_apply fits (encloses.holds p hp)

/-- Around no points the box stays the empty one. -/
theorem Surrounds.transformed (h : Surrounds ps b) (finite : ∀ p ∈ ps, (t.apply p).Finite) :
    Surrounds (ps.map t.apply) (b.transformed t) := by
  cases h with
  | none =>
    rw [Box.transformed, if_pos isEmpty_empty]
    exact .none
  | some _ encloses => exact .some (List.forall_mem_map.2 finite) (encloses.transformed finite)

/-- **A box is the box around its corners**, two of which are its sides. -/
theorem encloses_corners (h : Spans b s) : Encloses b.corners b where
  holds := fun _ => h.holds_corner
  lower := fun _ => ⟨b.lower, b.lower_mem_corners, rfl⟩
  upper := fun _ => ⟨b.upper, b.upper_mem_corners, rfl⟩

end Corners

/-- **Two corners are enough.** A box with crossed corners is left as it is. Any other, as long as
the images of its lower and its upper corner are finite (so box, scale and position are, and the
scale has any signs or is zero), becomes a box with its corners in order that holds the image of
every point of the box. It is the smallest box around the images of the eight corners: it holds
them, every other box that holds them reaches as far, and widening the empty box by all of them
gives the same. -/
theorem transformed_hull (b : Box) (t : Transform) :
    (b.isEmpty → b.transformed t = b ∧ (b.transformed t).isEmpty) ∧
      (¬ b.isEmpty → (t.apply b.lower).Finite → (t.apply b.upper).Finite →
        (∀ i, (b.transformed t).lower.along i ≤ (b.transformed t).upper.along i) ∧
        ¬ (b.transformed t).isEmpty ∧
        (∀ p, b.Holds p → (b.transformed t).Holds (t.apply p)) ∧
        (∀ c ∈ b.corners, (b.transformed t).Holds (t.apply c)) ∧
        (∀ b' : Box, (∀ c ∈ b.corners, b'.Holds (t.apply c)) → (b.transformed t).Within b') ∧
        (b.transformed t).Same ((b.corners.map t.apply).foldl Box.widen .empty)) := by
  constructor
  · intro hempty
    have heq : b.transformed t = b := if_pos hempty
    exact ⟨heq, heq.symm ▸ hempty⟩
  · intro visible hlower hupper
    obtain ⟨spans, fits⟩ := spans_of_apply visible hlower hupper
    have transformed := spans.transformed fits
    have holds (p : Vec3) (hp : b.Holds p) : (b.transformed t).Holds (t.apply p) :=
      spans.holds_apply fits hp
    have corner (c : Vec3) (hc : c ∈ b.corners) : (b.transformed t).Holds (t.apply c) :=
      holds c (spans.holds_corner hc)
    have images : ∀ q ∈ b.corners.map t.apply, q.Finite :=
      List.forall_mem_map.2 fun c hc => (corner c hc).finite transformed.finite
    have around : Encloses (b.corners.map t.apply) (b.transformed t) :=
      (encloses_corners spans).transformed fun c hc => (corner c hc).finite transformed.finite
    have hull := encloses_points (List.ne_nil_of_mem (List.mem_map_of_mem b.lower_mem_corners))
      images
    exact ⟨transformed.ordered, transformed.not_isEmpty, holds, corner,
      fun b' hb' => around.within (List.forall_mem_map.2 hb'), around.same hull images⟩

/-- A box that is mirrored along one axis and flattened along another, with every product
rounded; and one that is crossed along one axis only. -/
theorem transformed_mirrored :
    let t : Transform := ⟨⟨0.1, 5, -1⟩, .one, ⟨-0.3, 0, 0.7⟩⟩
    let b : Box := ⟨⟨0.1, -2, 0.9⟩, ⟨0.7, 2, 1.1⟩⟩
    let crossed : Box := ⟨⟨0, 0, 1⟩, ⟨1, 1, 0⟩⟩
    (¬ b.isEmpty ∧ (t.apply b.lower).Finite ∧ (t.apply b.upper).Finite ∧
      (b.transformed t).lower.x < (t.apply b.lower).x ∧
      (∀ c ∈ b.corners, (b.transformed t).Holds (t.apply c)) ∧
      (b.transformed t).Holds (t.apply ⟨0.2, 1, 1⟩)) ∧
      crossed.isEmpty ∧ crossed.transformed t = crossed := by
  intro t b crossed
  have visible : ¬ b.isEmpty := by decide +kernel
  have hlower : (t.apply b.lower).Finite := by decide +kernel
  have hupper : (t.apply b.upper).Finite := by decide +kernel
  have hcrossed : crossed.isEmpty := by decide +kernel
  have inside : b.Holds ⟨0.2, 1, 1⟩ := by
    intro i
    cases i <;> decide +kernel
  obtain ⟨-, -, holds, corner, -⟩ := (transformed_hull b t).2 visible hlower hupper
  exact ⟨⟨visible, hlower, hupper, by decide +kernel, corner, holds _ inside⟩, hcrossed,
    ((transformed_hull crossed t).1 hcrossed).1⟩

end Marquee.Space
