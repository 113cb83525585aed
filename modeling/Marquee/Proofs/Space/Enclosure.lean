import Marquee.Proofs.Number.Amount
import Marquee.Proofs.Space.Extent

/-!
# Boxes Around Points

The box that is widened from nothing to one point after the other is the smallest one around
them. Each of its sides touches a point that it was widened by (`Encloses`), and this is what
widening keeps; so every other box around these points reaches as far (`Encloses.within`). Around
no points it is the empty box (`Surrounds`).

## Main statements

* `Surrounds.widen`, `surrounds_points` — the box around some points;
* `Surrounds.union` — a union is the box around the points of both;
* `Encloses.within`, `Encloses.same` — there is no smaller one, and no other.
-/

namespace Marquee.Space

open Number

/-- Whether a point lies in a box. -/
def Box.Holds (b : Box) (p : Vec3) : Prop :=
  ∀ i, b.lower.along i ≤ p.along i ∧ p.along i ≤ b.upper.along i

/-- A box holds some points, and each of its sides touches one of them. -/
structure Encloses (ps : List Vec3) (b : Box) : Prop where
  holds : ∀ p ∈ ps, b.Holds p
  lower : ∀ i, ∃ p ∈ ps, b.lower.along i = p.along i
  upper : ∀ i, ∃ p ∈ ps, b.upper.along i = p.along i

section Choice

variable {x y : Float32}

/-- A finite number does not exceed itself. -/
theorem le_rfl_of_isFinite (hx : x.isFinite) : x ≤ x := (le_iff_value hx hx).2 le_rfl

/-- The lesser of two finite numbers exceeds neither. -/
theorem lesser_le (hx : x.isFinite) (hy : y.isFinite) : lesser x y ≤ x ∧ lesser x y ≤ y := by
  have hlesser := isFinite_lesser hx hy
  rw [le_iff_value hlesser hx, le_iff_value hlesser hy, value_lesser hx hy]
  exact ⟨inf_le_left, inf_le_right⟩

/-- Neither exceeds the greater one. -/
theorem le_greater (hx : x.isFinite) (hy : y.isFinite) : x ≤ greater x y ∧ y ≤ greater x y := by
  have hgreater := isFinite_greater hx hy
  rw [le_iff_value hx hgreater, le_iff_value hy hgreater, value_greater hx hy]
  exact ⟨le_sup_left, le_sup_right⟩

/-- Finite numbers are in order. -/
theorem le_trans_of_isFinite {z : Float32} (hx : x.isFinite) (hy : y.isFinite) (hz : z.isFinite)
    (hxy : x ≤ y) (hyz : y ≤ z) : x ≤ z := by
  rw [le_iff_value hx hy] at hxy
  rw [le_iff_value hy hz] at hyz
  exact (le_iff_value hx hz).2 (hxy.trans hyz)

/-- The lesser of two numbers is one of them. -/
theorem lesser_eq_or (x y : Float32) : lesser x y = x ∨ lesser x y = y := by
  unfold lesser
  split_ifs <;> simp

/-- So is the greater one. -/
theorem greater_eq_or (x y : Float32) : greater x y = x ∨ greater x y = y := by
  unfold greater
  split_ifs <;> simp

end Choice

section Reach

variable {ps qs : List Vec3} {p : Vec3}

/-- A point stands along each axis where one of some points does. -/
def Reached (ps : List Vec3) (p : Vec3) : Prop :=
  ∀ i, ∃ q ∈ ps, p.along i = q.along i

/-- A point among some is where one of them is. -/
theorem Reached.of_mem (hp : p ∈ ps) : Reached ps p := fun _ => ⟨p, hp, rfl⟩

/-- What points reach, others reach that reach all of these. -/
theorem Reached.trans (reached : Reached ps p) (all : ∀ q ∈ ps, Reached qs q) :
    Reached qs p := by
  intro i
  obtain ⟨q, hq, heq⟩ := reached i
  obtain ⟨r, hr, heq'⟩ := all q hq i
  exact ⟨r, hr, heq.trans heq'⟩

/-- What finite points reach is finite. -/
theorem Reached.finite (reached : Reached ps p) (finite : ∀ q ∈ ps, q.Finite) : p.Finite := by
  intro i
  obtain ⟨q, hq, heq⟩ := reached i
  exact heq ▸ finite q hq i

end Reach

variable {b b' : Box} {ps qs : List Vec3} {p : Vec3}

/-- **A box that touches its points** on all sides reaches no further than any other around
them. -/
theorem Encloses.within (encloses : Encloses ps b) (holds : ∀ p ∈ ps, b'.Holds p) :
    b.Within b' := by
  intro i
  obtain ⟨p, hp, hlower⟩ := encloses.lower i
  obtain ⟨q, hq, hupper⟩ := encloses.upper i
  rw [hlower, hupper]
  exact ⟨(holds p hp i).1, (holds q hq i).2⟩

/-- Other points in the box will do, as long as they reach the first ones. -/
theorem Encloses.of_reached (encloses : Encloses ps b) (reached : ∀ p ∈ ps, Reached qs p)
    (holds : ∀ q ∈ qs, b.Holds q) : Encloses qs b where
  holds := holds
  lower := Reached.trans encloses.lower reached
  upper := Reached.trans encloses.upper reached

/-- A box that touches finite points is finite. -/
theorem Encloses.finite (encloses : Encloses ps b) (finite : ∀ p ∈ ps, p.Finite) : b.Finite :=
  ⟨Reached.finite encloses.lower finite, Reached.finite encloses.upper finite⟩

/-- Boxes that reach no further than each other have the same corners. -/
theorem Box.Within.antisymm (within : b.Within b') (within' : b'.Within b) (finite : b.Finite)
    (finite' : b'.Finite) : b.Same b' := by
  intro i
  obtain ⟨hlower, hupper⟩ := within i
  obtain ⟨hlower', hupper'⟩ := within' i
  rw [le_iff_value (finite'.1 i) (finite.1 i)] at hlower
  rw [le_iff_value (finite.1 i) (finite'.1 i)] at hlower'
  rw [le_iff_value (finite.2 i) (finite'.2 i)] at hupper
  rw [le_iff_value (finite'.2 i) (finite.2 i)] at hupper'
  rw [beq_iff_value (finite.1 i) (finite'.1 i), beq_iff_value (finite.2 i) (finite'.2 i)]
  exact ⟨hlower'.antisymm hlower, hupper.antisymm hupper'⟩

/-- **There is one box** that touches some points on all sides. -/
theorem Encloses.same (encloses : Encloses ps b) (encloses' : Encloses ps b')
    (finite : ∀ p ∈ ps, p.Finite) : b.Same b' :=
  (encloses.within encloses'.holds).antisymm (encloses'.within encloses.holds)
    (encloses.finite finite) (encloses'.finite finite)

/-- The corners of a box that holds something are in order. -/
theorem Box.Holds.ordered (holds : b.Holds p) (finite : b.Finite) (hp : p.Finite) :
    ∀ i, b.lower.along i ≤ b.upper.along i := fun i =>
  le_trans_of_isFinite (finite.1 i) (hp i) (finite.2 i) (holds i).1 (holds i).2

/-- What a box holds is in every box around it. -/
theorem Box.Holds.mono (holds : b.Holds p) (within : b.Within b') (finite : b.Finite)
    (finite' : b'.Finite) (hp : p.Finite) : b'.Holds p := by
  intro i
  obtain ⟨hlower, hupper⟩ := within i
  exact ⟨le_trans_of_isFinite (finite'.1 i) (finite.1 i) (hp i) hlower (holds i).1,
    le_trans_of_isFinite (hp i) (finite.2 i) (finite'.2 i) (holds i).2 hupper⟩

/-- A box with its corners in order is not empty. -/
theorem not_isEmpty_of_ordered (finite : b.Finite)
    (ordered : ∀ i, b.lower.along i ≤ b.upper.along i) : ¬ b.isEmpty := by
  rw [isEmpty_iff_place finite, not_not]
  exact fun i => (le_iff_value (finite.1 i) (finite.2 i)).1 (ordered i)

/-- The empty box is widened to a point. -/
theorem encloses_widen_empty (hp : p.Finite) : Encloses [p] (Box.empty.widen p) := by
  have hlower (i : Axis) := along_widen_empty_lower (hp i)
  have hupper (i : Axis) := along_widen_empty_upper (hp i)
  refine ⟨fun q hq i => ?_, fun i => ⟨p, List.mem_cons_self, hlower i⟩,
    fun i => ⟨p, List.mem_cons_self, hupper i⟩⟩
  rw [List.mem_singleton.1 hq, hlower, hupper]
  exact ⟨le_rfl_of_isFinite (hp i), le_rfl_of_isFinite (hp i)⟩

/-- **One more point.** A side stays where it is or moves to the point. -/
theorem Encloses.widen (encloses : Encloses ps b) (finite : ∀ q ∈ ps, q.Finite) (hp : p.Finite) :
    Encloses (ps ++ [p]) (b.widen p) := by
  obtain ⟨flower, fupper⟩ := encloses.finite finite
  refine ⟨fun q hq i => ?_, fun i => ?_, fun i => ?_⟩
  · rw [along_widen_lower, along_widen_upper]
    obtain ⟨hlower, hlower'⟩ := lesser_le (flower i) (hp i)
    obtain ⟨hupper, hupper'⟩ := le_greater (fupper i) (hp i)
    rcases List.mem_append.1 hq with hq | hq
    · have fq := finite q hq i
      obtain ⟨hle, hle'⟩ := encloses.holds q hq i
      exact ⟨le_trans_of_isFinite (isFinite_lesser (flower i) (hp i)) (flower i) fq hlower hle,
        le_trans_of_isFinite fq (fupper i) (isFinite_greater (fupper i) (hp i)) hle' hupper⟩
    · rw [List.mem_singleton.1 hq]
      exact ⟨hlower', hupper'⟩
  · obtain ⟨q, hq, hlower⟩ := encloses.lower i
    rw [along_widen_lower]
    rcases lesser_eq_or (b.lower.along i) (p.along i) with heq | heq
    · exact ⟨q, List.mem_append_left _ hq, heq.trans hlower⟩
    · exact ⟨p, List.mem_append_right _ List.mem_cons_self, heq⟩
  · obtain ⟨q, hq, hupper⟩ := encloses.upper i
    rw [along_widen_upper]
    rcases greater_eq_or (b.upper.along i) (p.along i) with heq | heq
    · exact ⟨q, List.mem_append_left _ hq, heq.trans hupper⟩
    · exact ⟨p, List.mem_append_right _ List.mem_cons_self, heq⟩

/-- A box that touches points is not empty. -/
theorem Encloses.not_isEmpty (encloses : Encloses ps b) (finite : ∀ p ∈ ps, p.Finite) :
    ¬ b.isEmpty := by
  obtain ⟨p, hp, -⟩ := encloses.lower .x
  have fb := encloses.finite finite
  exact not_isEmpty_of_ordered fb ((encloses.holds p hp).ordered fb (finite p hp))

/-- **The box around some points**: the empty one around none, and else one that touches the
points on all sides. -/
inductive Surrounds : List Vec3 → Box → Prop
  | none : Surrounds [] .empty
  | some {ps : List Vec3} {b : Box} (finite : ∀ p ∈ ps, p.Finite) (encloses : Encloses ps b) :
    Surrounds ps b

/-- Around no points there is the empty box only. -/
theorem surrounds_nil : Surrounds [] b ↔ b = .empty := by
  constructor
  · intro h
    cases h with
    | none => rfl
    | some _ encloses =>
      obtain ⟨p, hp, -⟩ := encloses.lower .x
      cases hp
  · rintro rfl
    exact .none

/-- All points with a box around them are finite. -/
theorem Surrounds.finite (h : Surrounds ps b) : ∀ p ∈ ps, p.Finite := by
  cases h with
  | none => exact List.forall_mem_nil _
  | some finite _ => exact finite

/-- Where there are points, the box touches them. -/
theorem Surrounds.encloses (h : Surrounds ps b) (hne : ps ≠ []) : Encloses ps b := by
  cases h with
  | none => exact absurd rfl hne
  | some _ encloses => exact encloses

/-- **One more point** widens the box around the others. -/
theorem Surrounds.widen (h : Surrounds ps b) (hp : p.Finite) :
    Surrounds (ps ++ [p]) (b.widen p) := by
  refine .some (List.forall_mem_append.2 ⟨h.finite, List.forall_mem_singleton.2 hp⟩) ?_
  cases h with
  | none => exact encloses_widen_empty hp
  | some finite encloses => exact encloses.widen finite hp

/-- More points, by induction on them, with all points so far. -/
theorem Surrounds.foldl_widen (h : Surrounds ps b) (more : ∀ q ∈ qs, q.Finite) :
    Surrounds (ps ++ qs) (qs.foldl Box.widen b) := by
  induction qs generalizing ps b with
  | nil =>
    rw [List.append_nil]
    exact h
  | cons q qs ih =>
    obtain ⟨hq, hqs⟩ := List.forall_mem_cons.1 more
    have widened := ih (h.widen hq) hqs
    rw [List.append_assoc] at widened
    exact widened

/-- The empty box, widened to some points, is the box around them. -/
theorem surrounds_points (finite : ∀ p ∈ ps, p.Finite) :
    Surrounds ps (ps.foldl Box.widen .empty) :=
  Surrounds.none.foldl_widen finite

/-- **The box around some points** touches them, if there are any. -/
theorem encloses_points (hne : ps ≠ []) (finite : ∀ p ∈ ps, p.Finite) :
    Encloses ps (ps.foldl Box.widen .empty) :=
  (surrounds_points finite).encloses hne

/-- **A union** is the box around the points of both. It is widened to the corners of the second
box only, and each side of that touches one of the second points. -/
theorem Surrounds.union (h : Surrounds ps b) (h' : Surrounds qs b') :
    Surrounds (ps ++ qs) (b.union b') := by
  cases h' with
  | none =>
    rw [Box.union, if_pos isEmpty_empty, List.append_nil]
    exact h
  | some finite encloses =>
    have fb' := encloses.finite finite
    have widened := (h.widen fb'.1).widen fb'.2
    have around := widened.encloses (List.append_ne_nil_of_right_ne_nil _ (List.cons_ne_nil _ []))
    have hlower : b'.lower ∈ ps ++ [b'.lower] ++ [b'.upper] :=
      List.mem_append_left _ (List.mem_append_right _ List.mem_cons_self)
    have hupper : b'.upper ∈ ps ++ [b'.lower] ++ [b'.upper] :=
      List.mem_append_right _ List.mem_cons_self
    have within : b'.Within ((b.widen b'.lower).widen b'.upper) := fun i =>
      ⟨(around.holds _ hlower i).1, (around.holds _ hupper i).2⟩
    rw [Box.union, if_neg (encloses.not_isEmpty finite)]
    refine .some (List.forall_mem_append.2 ⟨h.finite, finite⟩) (around.of_reached ?_ ?_)
    · have second (q : Vec3) (hq : q ∈ qs) : Reached (ps ++ qs) q :=
        .of_mem (List.mem_append_right _ hq)
      simp only [List.forall_mem_append, List.forall_mem_singleton]
      exact ⟨⟨fun p hp => .of_mem (List.mem_append_left _ hp),
        Reached.trans encloses.lower second⟩, Reached.trans encloses.upper second⟩
    · refine List.forall_mem_append.2 ⟨fun p hp => ?_, fun q hq => ?_⟩
      · exact around.holds p (List.mem_append_left _ (List.mem_append_left _ hp))
      · exact (encloses.holds q hq).mono within fb' (around.finite widened.finite) (finite q hq)

/-- **Around more points** a box reaches no less far. -/
theorem Surrounds.within (h : Surrounds ps b) (h' : Surrounds qs b') (hsubset : ps ⊆ qs) :
    b.Within b' := by
  cases h with
  | some finite encloses =>
    obtain ⟨p, hp, -⟩ := encloses.lower .x
    have around := h'.encloses (List.ne_nil_of_mem (hsubset hp))
    exact encloses.within fun q hq => around.holds q (hsubset hq)
  | none =>
    intro i
    rw [along_empty_lower, along_empty_upper]
    cases h' with
    | none =>
      rw [along_empty_lower, along_empty_upper]
      exact ⟨by decide, by decide⟩
    | some finite encloses =>
      have fb' := encloses.finite finite
      exact ⟨le_infinity (fb'.1 i), neg_infinity_le (fb'.2 i)⟩

/-- **There is one box around some points**, in whichever order they are. -/
theorem Surrounds.same (h : Surrounds ps b) (h' : Surrounds qs b') (hsubset : ps ⊆ qs)
    (hsubset' : qs ⊆ ps) : b.Same b' := by
  rcases eq_or_ne ps [] with rfl | hne
  · obtain rfl : qs = [] := List.subset_nil.1 hsubset'
    obtain rfl := surrounds_nil.1 h
    obtain rfl := surrounds_nil.1 h'
    intro i
    rw [along_empty_lower, along_empty_upper]
    exact ⟨by decide, by decide⟩
  · have hne' : qs ≠ [] := fun hqs => hne (List.subset_nil.1 (hqs ▸ hsubset))
    exact (h.within h' hsubset).antisymm (h'.within h hsubset')
      ((h.encloses hne).finite h.finite) ((h'.encloses hne').finite h'.finite)

/-- A point lies in a box if it does along all three axes. -/
theorem Box.holds_iff : b.Holds p ↔ (b.lower.x ≤ p.x ∧ p.x ≤ b.upper.x) ∧
    (b.lower.y ≤ p.y ∧ p.y ≤ b.upper.y) ∧ b.lower.z ≤ p.z ∧ p.z ≤ b.upper.z := by
  constructor
  · intro holds
    exact ⟨holds .x, holds .y, holds .z⟩
  · rintro ⟨hx, hy, hz⟩ i
    cases i <;> assumption

/-- **A box that grows** on all sides, and not inwards, holds what it held. -/
theorem Box.within_grown {margin : Vec3} (outwards : ∀ i, 0 ≤ margin.along i)
    (finite : (Box.mk (b.lower.sub margin) (b.upper.add margin)).Finite) :
    b.Within ⟨b.lower.sub margin, b.upper.add margin⟩ := by
  intro i
  have flower := finite.1 i
  have fupper := finite.2 i
  rw [Vec3.sub, Vec3.along_map₂] at flower ⊢
  rw [Vec3.add, Vec3.along_map₂] at fupper ⊢
  exact ⟨sub_le_of_isFinite (outwards i) flower, le_add_of_isFinite (outwards i) fupper⟩

end Marquee.Space
