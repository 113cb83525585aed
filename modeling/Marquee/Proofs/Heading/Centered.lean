import Marquee.Proofs.Heading.Row
import Marquee.Proofs.Scene.Bounds

/-!
# The Middle of a Row Is the Origin

A finished row is moved by the center of its box. The box of the whole scene is measured anew
around the row where it stands then, and has its middle at the origin of the pivot, along all
three axes; so in the world its middle is where the pivot is. What the row is made of does not
matter. Groups without anything to see are in neither box.

Numbers of single precision are rounded. This takes that the center of the row's box is exact,
and so are its two corners once they are moved by it; how the box itself came to be does not
matter either.

A row with nothing to see has an empty box. The center of that counts as the origin, so the row
stays where it is.

## Main statements

* `spans_centered` — a box that is moved by its center has its middle at the origin;
* `scene_centered` — the middle of the scene is at the place that was asked for.
-/

namespace Marquee

open Fetch Markup Number Scene Space

/-! ### Boxes moved by their center -/

/-- A number is exactly a fraction: it was not rounded, and it is not too large. -/
structure Number.Exact (r : Float32) (q : ℚ) : Prop where
  finite : r.isFinite
  value_eq : value r = q

instance (r : Float32) (q : ℚ) : Decidable (Exact r q) :=
  decidable_of_iff (r.isFinite ∧ value r = q)
    ⟨fun h => ⟨h.1, h.2⟩, fun h => ⟨h.finite, h.value_eq⟩⟩

namespace Space

/-- Moved by its center, so that the center is at the origin. -/
def Box.centering (b : Box) : Transform := .moved (b.center.scale (-1))

/-- The center of a box is exactly in the middle, and its corners are moved by it exactly. -/
structure Box.Centers (b : Box) : Prop where
  center : ∀ i, Exact (b.center.along i) ((b.lower.place i + b.upper.place i) / 2)
  lower : ∀ i, Exact ((b.centering.apply b.lower).along i) (b.lower.place i - b.center.place i)
  upper : ∀ i, Exact ((b.centering.apply b.upper).along i) (b.upper.place i - b.center.place i)

instance (b : Box) : Decidable b.Centers :=
  decidable_of_iff ((∀ i, Exact (b.center.along i) ((b.lower.place i + b.upper.place i) / 2)) ∧
      (∀ i, Exact ((b.centering.apply b.lower).along i) (b.lower.place i - b.center.place i)) ∧
      ∀ i, Exact ((b.centering.apply b.upper).along i) (b.upper.place i - b.center.place i))
    ⟨fun h => ⟨h.1, h.2.1, h.2.2⟩, fun h => ⟨h.center, h.lower, h.upper⟩⟩

variable {b : Box} {s : NonemptyInterval (Axis → ℚ)}

/-- A vector is stretched along each axis. -/
@[simp]
theorem Vec3.along_scale (v : Vec3) (r : Float32) (i : Axis) :
    (v.scale r).along i = v.along i * r := by
  cases i <;> rfl

/-- The middle between two points that are moved is the middle of where they end up. -/
theorem fst_add_snd_stretch (t : Transform) (s : NonemptyInterval (Axis → ℚ)) (i : Axis) :
    (stretch t s).fst i + (stretch t s).snd i = carry t i (s.fst i) + carry t i (s.snd i) :=
  min_add_max _ _

/-- **A box that is moved by its center** has its middle at the origin. -/
theorem spans_centered (visible : ¬ b.isEmpty) (exact : b.Centers) :
    ∃ s, Spans (b.transformed b.centering) s ∧ ∀ i, s.fst i + s.snd i = 0 := by
  have hlower : (b.centering.apply b.lower).Finite := fun i => (exact.lower i).finite
  have hupper : (b.centering.apply b.upper).Finite := fun i => (exact.upper i).finite
  obtain ⟨spans, fits⟩ := spans_of_apply visible hlower hupper
  refine ⟨_, spans.transformed fits, fun i => ?_⟩
  have hlower_i : carry b.centering i (b.lower.place i) = b.lower.place i - b.center.place i :=
    (congrFun (place_apply hlower) i).symm.trans (exact.lower i).value_eq
  have hupper_i : carry b.centering i (b.upper.place i) = b.upper.place i - b.center.place i :=
    (congrFun (place_apply hupper) i).symm.trans (exact.upper i).value_eq
  have hcenter : b.center.place i = (b.lower.place i + b.upper.place i) / 2 :=
    (exact.center i).value_eq
  rw [fst_add_snd_stretch, ← spans.lower, ← spans.upper, hlower_i, hupper_i, hcenter]
  ring

/-- The center of a box with its middle at the origin is the origin. -/
theorem Spans.center_eq (spans : Spans b s) {i : Axis} (middle : s.fst i + s.snd i = 0) :
    Exact (b.center.along i) 0 := by
  have flower := spans.finite.1 i
  have fupper := spans.finite.2 i
  have hsum : value (b.lower.along i) + value (b.upper.along i) = 0 := by
    rw [← spans.lower, ← spans.upper] at middle
    exact middle
  have fsum : (b.lower.along i + b.upper.along i).isFinite := by
    rw [isFinite_add_iff flower fupper, hsum]
    exact inRange_zero
  have vsum : value (b.lower.along i + b.upper.along i) = 0 := by
    rw [value_add flower fupper fsum, hsum, nearest_zero]
  have fhalf : (0.5 : Float32).isFinite := by decide
  rw [Box.center, if_neg spans.not_isEmpty, Vec3.along_scale, Vec3.add, Vec3.along_map₂]
  have fcenter : ((b.lower.along i + b.upper.along i) * 0.5).isFinite := by
    rw [isFinite_mul_iff fsum fhalf, vsum, zero_mul]
    exact inRange_zero
  exact ⟨fcenter, by rw [value_mul fsum fhalf fcenter, vsum, zero_mul, nearest_zero]⟩

/-- A transform that only moves still multiplies by one. -/
theorem along_apply_moved (v p : Vec3) (i : Axis) :
    ((Transform.moved v).apply p).along i = p.along i * 1 + v.along i := by
  cases i <;> rfl

/-- What is at the origin ends up where it is moved. -/
theorem apply_moved_origin {v : Vec3} {i : Axis} (origin : Exact (p.along i) 0)
    (finite : (v.along i).isFinite) : ((Transform.moved v).apply p).along i == v.along i := by
  have hone : (1 : Float32).isFinite := by decide
  have fmul : (p.along i * 1).isFinite := by
    rw [isFinite_mul_iff origin.finite hone, origin.value_eq, zero_mul]
    exact inRange_zero
  have vmul : value (p.along i * 1) = 0 := by
    rw [value_mul origin.finite hone fmul, origin.value_eq, zero_mul, nearest_zero]
  have fadd : (p.along i * 1 + v.along i).isFinite := by
    rw [isFinite_add_iff fmul finite, vmul, zero_add]
    exact inRange_value finite
  rw [along_apply_moved, beq_iff_value fadd finite, value_add fmul finite fadd, vmul, zero_add,
    nearest_value finite]

end Space

/-! ### The scene -/

namespace Heading

/-- The box of a scene is measured around its row. -/
theorem localBounds_scene (o : Options) (loader : Loader) (leaves : List Leaf) (s : Store) :
    let h := (ofLeaves o loader leaves s).1
    h.scene.localBounds =
      Box.empty.union (h.row.localBounds.transformed h.row.localBounds.centering) := by
  intro h
  have hscene : h.scene.localBounds =
    Box.empty.union (h.row.toNode.localBounds.transformed h.row.localBounds.centering) := rfl
  rw [hscene, Group.localBounds_toNode]

/-- **The place that was asked for is the true center.** Where the box of a row is not empty, and
its center and the corners that are moved by it are exact, the box of the scene is not empty
either, its middle is the origin along every axis, and in the world that is where the pivot
stands.

A row with nothing to see has an empty box, and its position is the origin, up to the sign of
zero. All this is so for any leaves, and whatever the store has. -/
theorem scene_centered (o : Options) (loader : Loader) (leaves : List Leaf) (s : Store) :
    let h := (ofLeaves o loader leaves s).1
    let b := h.scene.localBounds
    (¬ h.row.localBounds.isEmpty → h.row.localBounds.Centers →
      ¬ b.isEmpty ∧ ∀ i, b.lower.place i + b.upper.place i = 0 ∧ b.center.along i == 0 ∧
        ((o.position.along i).isFinite →
          (h.scene.transform.apply b.center).along i == o.position.along i)) ∧
    (h.row.parts = [] → h.row.localBounds.isEmpty) ∧
    (h.row.localBounds.isEmpty → ∀ i, h.row.transform.position.along i == 0) := by
  intro h b
  refine ⟨fun visible exact => ?_, fun nothing => ?_, fun empty i => ?_⟩
  · obtain ⟨e, spans, middle⟩ := spans_centered visible exact
    have hb : b = _ := localBounds_scene o loader leaves s
    have spans := spans.empty_union
    rw [← hb] at spans
    refine ⟨spans.not_isEmpty, fun i => ?_⟩
    have hcenter := spans.center_eq (middle i)
    refine ⟨?_, ?_, apply_moved_origin hcenter⟩
    · rw [spans.lower, spans.upper]
      exact middle i
    · rw [beq_iff_value hcenter.finite (by decide)]
      exact hcenter.value_eq
  · rw [localBounds_of_no_parts nothing]
    exact isEmpty_empty
  · have hposition : h.row.transform.position = h.row.localBounds.center.scale (-1) := rfl
    rw [hposition, Box.center, if_pos empty]
    cases i <;> decide

/-- Options with measures that need few bits, and a face with a full square for every
character. -/
def Options.squares : Options where
  position := ⟨10, 20, 30⟩
  fonts := { regular := ⟨"square", fun _ size => ⟨size, 0, 0, size, size⟩⟩ }
  layout := ⟨0.5, 0.5⟩
  emotes := { depthSegments := 2 }

/-- A run, blanks, a picture that is there and one that is not. -/
theorem scene_centered_squares :
    let s : Store := ({} : Store).insertTexture (Options.squares.emotes.urlFor "1") ⟨"", 1, 1⟩
    let b := (ofLeaves .squares .offline [.text "ab " "WHITE" .regular, .emote "1" "WHITE" .bold,
      .text "  " "WHITE" .regular, .emote "2" "WHITE" .regular] s).1.scene.localBounds
    ¬ b.isEmpty ∧ ∀ i, b.lower.place i + b.upper.place i = 0 := by
  intro s b
  obtain ⟨hcentered, -⟩ := scene_centered .squares .offline [.text "ab " "WHITE" .regular,
    .emote "1" "WHITE" .bold, .text "  " "WHITE" .regular, .emote "2" "WHITE" .regular] s
  obtain ⟨visible, middle⟩ := hcentered (by decide +kernel) (by decide +kernel)
  exact ⟨visible, fun i => (middle i).1⟩

end Heading

end Marquee
