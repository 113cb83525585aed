import Marquee.Space.Box
import Marquee.Proofs.Number.Arithmetic

/-!
# Extents

What a box measures along every axis, as intervals of fractions, if it is not empty. A transform
stretches and moves the ends of an interval, rounding both times. Along an axis this keeps the
order or, where the scale is negative, reverses it; either way the ends become the ends.

## Main statements

* `Spans.widen`, `Spans.transformed` — what boxes measure;
* `monotone_or_antitone_carry` — what becomes of the order along an axis.
-/

namespace Marquee.Space

open Number

/-! ### Axes -/

/-- The three directions of space. -/
inductive Axis where
  | x | y | z
deriving DecidableEq

instance : Fintype Axis := ⟨{.x, .y, .z}, fun i => by cases i <;> decide⟩

namespace Vec3

/-- The coordinate along an axis. -/
def along (v : Vec3) : Axis → Float32
  | .x => v.x
  | .y => v.y
  | .z => v.z

/-- Whether all coordinates are finite. -/
def Finite (v : Vec3) : Prop := ∀ i, (v.along i).isFinite

instance (v : Vec3) : Decidable v.Finite :=
  inferInstanceAs (Decidable (∀ i, (v.along i).isFinite))

/-- What the coordinates are worth. -/
def place (v : Vec3) : Axis → ℚ := fun i => value (v.along i)

/-- Vectors are joined along each axis apart. -/
@[simp]
theorem along_map₂ (f : Float32 → Float32 → Float32) (a b : Vec3) (i : Axis) :
    (map₂ f a b).along i = f (a.along i) (b.along i) := by
  cases i <;> rfl

end Vec3

namespace Box

/-- Whether both corners are finite. -/
def Finite (b : Box) : Prop := b.lower.Finite ∧ b.upper.Finite

instance (b : Box) : Decidable b.Finite :=
  inferInstanceAs (Decidable (b.lower.Finite ∧ b.upper.Finite))

/-- Whether two boxes have the same corners, whatever the sign of a zero. -/
def Same (b b' : Box) : Prop :=
  ∀ i, b.lower.along i == b'.lower.along i ∧ b.upper.along i == b'.upper.along i

instance (b b' : Box) : Decidable (b.Same b') :=
  inferInstanceAs (Decidable (∀ i : Axis,
    b.lower.along i == b'.lower.along i ∧ b.upper.along i == b'.upper.along i))

/-- Whether a box reaches no further than another along any axis. -/
def Within (b b' : Box) : Prop :=
  ∀ i, b'.lower.along i ≤ b.lower.along i ∧ b.upper.along i ≤ b'.upper.along i

end Box

/-! ### The lesser and the greater -/

section Choice

variable {a b : Float32}

/-- A finite number is the lesser one beside infinity. -/
theorem lesser_infinity (ha : a.isFinite) : lesser (1 / 0) a = a := by
  rw [lesser, if_pos (lt_infinity ha), ite_self]

/-- It is the greater one beside negative infinity. -/
theorem greater_neg_infinity (ha : a.isFinite) : greater (-(1 / 0)) a = a := by
  rw [greater, if_pos (neg_infinity_lt ha), ite_self]

/-- The lesser of two finite numbers is finite. -/
theorem isFinite_lesser (ha : a.isFinite) (hb : b.isFinite) : (lesser a b).isFinite := by
  unfold lesser
  split_ifs <;> assumption

/-- So is the greater one. -/
theorem isFinite_greater (ha : a.isFinite) (hb : b.isFinite) : (greater a b).isFinite := by
  unfold greater
  split_ifs <;> assumption

/-- The lesser number is worth the lesser fraction. -/
theorem value_lesser (ha : a.isFinite) (hb : b.isFinite) :
    value (lesser a b) = value a ⊓ value b := by
  rw [lesser, isNaN_of_isFinite ha, if_neg Bool.false_ne_true]
  split_ifs with hlt
  · exact (inf_eq_right.2 ((lt_iff_value hb ha).1 hlt).le).symm
  · exact (inf_eq_left.2 (not_lt.1 (mt (lt_iff_value hb ha).2 hlt))).symm

/-- The greater number is worth the greater fraction. -/
theorem value_greater (ha : a.isFinite) (hb : b.isFinite) :
    value (greater a b) = value a ⊔ value b := by
  rw [greater, isNaN_of_isFinite ha, if_neg Bool.false_ne_true]
  split_ifs with hlt
  · exact (sup_eq_right.2 ((lt_iff_value ha hb).1 hlt).le).symm
  · exact (sup_eq_left.2 (not_lt.1 (mt (lt_iff_value ha hb).2 hlt))).symm

end Choice

/-! ### What a box measures -/

/-- The intervals between the corners of a box, in whichever order they are. -/
def Box.span (b : Box) : NonemptyInterval (Axis → ℚ) :=
  .pure b.lower.place ⊔ .pure b.upper.place

/-- A finite box reaches from one end of the intervals to the other. -/
structure Spans (b : Box) (s : NonemptyInterval (Axis → ℚ)) : Prop where
  finite : b.Finite
  lower : b.lower.place = s.fst
  upper : b.upper.place = s.snd

section Spans

variable {b : Box} {s : NonemptyInterval (Axis → ℚ)} {p : Vec3}

/-- A box is empty if its corners are crossed along some axis. -/
theorem isEmpty_iff (b : Box) : b.isEmpty ↔ ∃ i, b.upper.along i < b.lower.along i := by
  rw [Box.isEmpty, Bool.or_eq_true, Bool.or_eq_true, decide_eq_true_iff, decide_eq_true_iff,
    decide_eq_true_iff]
  constructor
  · rintro ((hx | hy) | hz)
    · exact ⟨.x, hx⟩
    · exact ⟨.y, hy⟩
    · exact ⟨.z, hz⟩
  · rintro ⟨i, h⟩
    cases i
    · exact .inl (.inl h)
    · exact .inl (.inr h)
    · exact .inr h

/-- A finite box is empty if its corners are crossed. -/
theorem isEmpty_iff_place (finite : b.Finite) : b.isEmpty ↔ ¬ b.lower.place ≤ b.upper.place := by
  rw [isEmpty_iff, Pi.le_def, not_forall]
  exact exists_congr fun i => (lt_iff_value (finite.2 i) (finite.1 i)).trans not_le.symm

/-- A finite box that is not empty measures what lies between its corners. -/
theorem spans_span (finite : b.Finite) (hb : ¬ b.isEmpty) : Spans b b.span := by
  rw [isEmpty_iff_place finite, not_not] at hb
  exact ⟨finite, (inf_eq_left.2 hb).symm, (sup_eq_right.2 hb).symm⟩

/-- A box that measures something is not empty. -/
theorem Spans.not_isEmpty (h : Spans b s) : ¬ b.isEmpty := by
  rw [isEmpty_iff_place h.finite, not_not, h.lower, h.upper]
  exact s.fst_le_snd

/-- The intervals between two points are those that hold both. -/
theorem pure_sup_pure (s : NonemptyInterval (Axis → ℚ)) :
    NonemptyInterval.pure s.fst ⊔ .pure s.snd = s := by
  refine NonemptyInterval.ext (Prod.ext ?_ ?_)
  · exact inf_eq_left.2 s.fst_le_snd
  · exact sup_eq_right.2 s.fst_le_snd

/-- The lower side of a widened box is the lesser of two. -/
theorem along_widen_lower (b : Box) (p : Vec3) (i : Axis) :
    (b.widen p).lower.along i = lesser (b.lower.along i) (p.along i) :=
  Vec3.along_map₂ lesser b.lower p i

/-- The upper side is the greater of two. -/
theorem along_widen_upper (b : Box) (p : Vec3) (i : Axis) :
    (b.widen p).upper.along i = greater (b.upper.along i) (p.along i) :=
  Vec3.along_map₂ greater b.upper p i

/-- The empty box begins at infinity. -/
theorem along_empty_lower (i : Axis) : Box.empty.lower.along i = 1 / 0 := by
  cases i <;> rfl

/-- It ends at negative infinity. -/
theorem along_empty_upper (i : Axis) : Box.empty.upper.along i = -(1 / 0) := by
  cases i <;> rfl

/-- The empty box, widened to a point, begins there. -/
theorem along_widen_empty_lower {i : Axis} (hp : (p.along i).isFinite) :
    (Box.empty.widen p).lower.along i = p.along i := by
  rw [along_widen_lower, along_empty_lower, lesser_infinity hp]

/-- It ends there as well. -/
theorem along_widen_empty_upper {i : Axis} (hp : (p.along i).isFinite) :
    (Box.empty.widen p).upper.along i = p.along i := by
  rw [along_widen_upper, along_empty_upper, greater_neg_infinity hp]

/-- The empty box becomes a point. -/
theorem spans_widen_empty (hp : p.Finite) : Spans (Box.empty.widen p) (.pure p.place) := by
  have hlower (i : Axis) := along_widen_empty_lower (hp i)
  have hupper (i : Axis) := along_widen_empty_upper (hp i)
  refine ⟨⟨fun i => ?_, fun i => ?_⟩, funext fun i => ?_, funext fun i => ?_⟩
  · rw [hlower]
    exact hp i
  · rw [hupper]
    exact hp i
  · exact congrArg value (hlower i)
  · exact congrArg value (hupper i)

/-- **A box that is widened** measures one more point. -/
theorem Spans.widen (h : Spans b s) (hp : p.Finite) : Spans (b.widen p) (s ⊔ .pure p.place) := by
  obtain ⟨⟨flower, fupper⟩, lower, upper⟩ := h
  refine ⟨⟨fun i => ?_, fun i => ?_⟩, funext fun i => ?_, funext fun i => ?_⟩
  · rw [along_widen_lower]
    exact isFinite_lesser (flower i) (hp i)
  · rw [along_widen_upper]
    exact isFinite_greater (fupper i) (hp i)
  · rw [Vec3.place, along_widen_lower, value_lesser (flower i) (hp i)]
    exact congrArg (· ⊓ value (p.along i)) (congrFun lower i)
  · rw [Vec3.place, along_widen_upper, value_greater (fupper i) (hp i)]
    exact congrArg (· ⊔ value (p.along i)) (congrFun upper i)

/-- The empty box is empty. -/
theorem isEmpty_empty : Box.empty.isEmpty := by
  decide

/-- **A box joined to the empty one** measures what it did. -/
theorem Spans.empty_union (h : Spans b s) : Spans (Box.empty.union b) s := by
  have hspans := (spans_widen_empty h.finite.1).widen h.finite.2
  rw [h.lower, h.upper, pure_sup_pure] at hspans
  rw [Box.union, if_neg h.not_isEmpty]
  exact hspans

end Spans

/-! ### Transforms -/

section Transform

/-- What becomes of a coordinate: it is stretched, then moved, and rounded both times. -/
def carry (t : Transform) (i : Axis) (q : ℚ) : ℚ :=
  nearest (nearest (q * value (t.scale.along i)) + value (t.position.along i))

/-- Whether a coordinate stays finite. -/
structure Carries (t : Transform) (i : Axis) (q : ℚ) : Prop where
  scale : (t.scale.along i).isFinite
  position : (t.position.along i).isFinite
  stretched : InRange (q * value (t.scale.along i))
  moved : InRange (nearest (q * value (t.scale.along i)) + value (t.position.along i))

/-- The intervals between what becomes of the ends of some intervals. -/
def stretch (t : Transform) (s : NonemptyInterval (Axis → ℚ)) : NonemptyInterval (Axis → ℚ) :=
  .pure (fun i => carry t i (s.fst i)) ⊔ .pure fun i => carry t i (s.snd i)

/-- Whether the ends of some intervals stay finite. -/
def Fits (t : Transform) (s : NonemptyInterval (Axis → ℚ)) : Prop :=
  ∀ i, Carries t i (s.fst i) ∧ Carries t i (s.snd i)

variable {t : Transform} {b : Box} {s : NonemptyInterval (Axis → ℚ)} {p : Vec3}

/-- Along each axis a point is scaled and then moved. -/
theorem along_apply (t : Transform) (p : Vec3) (i : Axis) :
    (t.apply p).along i = p.along i * t.scale.along i + t.position.along i := by
  rw [Transform.apply, Vec3.add, Vec3.mul, Vec3.along_map₂, Vec3.along_map₂]

/-- Whether a point stays finite depends on what its coordinates are worth. -/
theorem finite_apply_iff (hp : p.Finite) :
    (t.apply p).Finite ↔ ∀ i, Carries t i (p.place i) := by
  refine forall_congr' fun i => ?_
  rw [along_apply]
  constructor
  · intro h
    obtain ⟨hmul, hposition⟩ := isFinite_of_add h
    obtain ⟨-, hscale⟩ := isFinite_of_mul hmul
    have hvalue := value_mul (hp i) hscale hmul
    refine ⟨hscale, hposition, (isFinite_mul_iff (hp i) hscale).1 hmul, ?_⟩
    rw [Vec3.place, ← hvalue]
    exact (isFinite_add_iff hmul hposition).1 h
  · rintro ⟨hscale, hposition, hstretched, hmoved⟩
    have hmul := (isFinite_mul_iff (hp i) hscale).2 hstretched
    rw [isFinite_add_iff hmul hposition, value_mul (hp i) hscale hmul]
    exact hmoved

/-- A point is finite if it stays so. -/
theorem finite_of_apply (h : (t.apply p).Finite) : p.Finite := by
  intro i
  have hi := h i
  rw [along_apply] at hi
  exact (isFinite_of_mul (isFinite_of_add hi).1).1

/-- What becomes of a point, if it stays finite. -/
theorem place_apply (h : (t.apply p).Finite) :
    (t.apply p).place = fun i => carry t i (p.place i) := by
  funext i
  have hfinite := h i
  rw [along_apply] at hfinite
  obtain ⟨hmul, hposition⟩ := isFinite_of_add hfinite
  obtain ⟨hp, hscale⟩ := isFinite_of_mul hmul
  rw [Vec3.place, along_apply, value_add hmul hposition hfinite, value_mul hp hscale hmul]
  rfl

/-- **Along an axis** a transform keeps the order, or it reverses it. -/
theorem monotone_or_antitone_carry (t : Transform) (i : Axis) :
    Monotone (carry t i) ∨ Antitone (carry t i) := by
  rcases le_total 0 (value (t.scale.along i)) with hscale | hscale
  · refine .inl fun q r hqr => ?_
    have hmul := nearest_mono (mul_le_mul_of_nonneg_right hqr hscale)
    exact nearest_mono (add_le_add_left hmul _)
  · refine .inr fun q r hqr => ?_
    have hmul := nearest_mono (mul_le_mul_of_nonpos_right hqr hscale)
    exact nearest_mono (add_le_add_left hmul _)

/-- The ends of what a box measures stay finite if its corners do. -/
theorem Spans.fits_iff (h : Spans b s) :
    Fits t s ↔ (t.apply b.lower).Finite ∧ (t.apply b.upper).Finite := by
  rw [finite_apply_iff h.finite.1, finite_apply_iff h.finite.2, h.lower, h.upper, Fits,
    forall_and]

/-- A box that is not empty measures something, and stays finite if its corners do. -/
theorem spans_of_apply (visible : ¬ b.isEmpty) (hlower : (t.apply b.lower).Finite)
    (hupper : (t.apply b.upper).Finite) : Spans b b.span ∧ Fits t b.span := by
  have spans := spans_span ⟨finite_of_apply hlower, finite_of_apply hupper⟩ visible
  exact ⟨spans, spans.fits_iff.2 ⟨hlower, hupper⟩⟩

/-- **A box that is transformed** measures the transformed intervals. -/
theorem Spans.transformed (h : Spans b s) (fits : Fits t s) :
    Spans (b.transformed t) (stretch t s) := by
  obtain ⟨hlower, hupper⟩ := h.fits_iff.1 fits
  have hspans := (spans_widen_empty hlower).widen hupper
  rw [place_apply hlower, place_apply hupper, h.lower, h.upper] at hspans
  rw [Box.transformed, if_neg h.not_isEmpty]
  exact hspans

end Transform

end Marquee.Space
