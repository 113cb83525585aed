import Marquee.Proofs.Scene.Parts
import Marquee.Proofs.Space.Corners

/-!
# The Bounds of a Scene

A point of a leaf is seen where its coordinates end up: along every axis they are scaled and then
moved, by the transform of the leaf first and by those of the groups around it one after the
other. The box of a group is the smallest one around the corners of all leaves below it, where
they are seen. It is measured box by box and level by level, and two corners of a box are mapped
at every level; nothing is lost by that, as the sides of each box touch corners of leaves. This
holds as long as the corners end up at finite points. Then the arrangement does not show in the
bounds, and whatever is added makes them no smaller.

## Main statements

* `Part.surrounds_image` — the box of a leaf, where it is seen;
* `surrounds_union` — what a walk through the nodes encloses;
* `localBounds_hull` — the bounds of a group, what they do not depend on, and that they grow.
-/

namespace Marquee.Scene

open Space

/-! ### Where a part is seen -/

namespace Part

/-- Where a coordinate along an axis ends up: it is scaled and then moved, by one transform after
the other. -/
def travel (p : Part) (i : Axis) (x : Float32) : Float32 :=
  p.chain.foldl (fun x t => x * t.scale.along i + t.position.along i) x

/-- Where a point of a part is seen. -/
def seen (p : Part) (q : Vec3) : Vec3 := ⟨p.travel .x q.x, p.travel .y q.y, p.travel .z q.z⟩

/-- The eight corners of a part, where they are seen. -/
def corners (p : Part) : List Vec3 := p.box.corners.map p.seen

/-- Whether the corners of a part end up at finite points. A corner that is not finite somewhere
on its way is not finite in the end. -/
def Finite (p : Part) : Prop := ∀ q ∈ p.corners, q.Finite

instance (p : Part) : Decidable p.Finite :=
  inferInstanceAs (Decidable (∀ q ∈ p.corners, q.Finite))

variable {p : Part} {t : Transform}

/-- One more transform is applied last. -/
theorem seen_under (t : Transform) (p : Part) (q : Vec3) :
    (p.under t).seen q = t.apply (p.seen q) := by
  simp only [seen, travel, under, List.foldl_append, List.foldl_cons, List.foldl_nil]
  rfl

/-- The corners below one more transform are the images of the corners. -/
theorem corners_under (t : Transform) (p : Part) :
    (p.under t).corners = p.corners.map t.apply := by
  rw [corners, corners, List.map_map]
  exact List.map_congr_left fun q _ => seen_under t p q

/-- Below one more transform, the images of the corners are finite. -/
theorem finite_under : (p.under t).Finite ↔ ∀ q ∈ p.corners, (t.apply q).Finite := by
  rw [Finite, corners_under, List.forall_mem_map]

/-- What is finite at the end was finite before. -/
theorem Finite.of_under (finite : (p.under t).Finite) : p.Finite := fun q hq =>
  finite_of_apply (finite_under.1 finite q hq)

/-- Rotations move no corner. -/
theorem corners_still (p : Part) : p.still.corners = p.corners := by
  have hseen (q : Vec3) : p.still.seen q = p.seen q := by
    simp only [seen, travel, still, List.foldl_map]
    rfl
  exact List.map_congr_left fun q _ => hseen q

/-- One more transform maps the box where it was seen. -/
theorem image_under (t : Transform) (p : Part) : (p.under t).image = p.image.transformed t :=
  List.foldl_concat _ _ _ _

/-- **The box of a leaf, where it is seen**, is the box around its corners there. Induction on the
transforms, from the last one. -/
theorem surrounds_image (finite : p.Finite) : Surrounds p.corners p.image := by
  obtain ⟨box, chain, visible⟩ := p
  induction chain using List.reverseRecOn with
  | nil =>
    have hcorners : (Part.mk box [] visible).corners = box.corners := List.map_id _
    rw [Finite, hcorners] at finite
    have fbox : box.Finite :=
      ⟨finite _ box.lower_mem_corners, finite _ box.upper_mem_corners⟩
    rw [hcorners]
    exact .some finite (encloses_corners (spans_span fbox visible))
  | append_singleton chain t ih =>
    have hunder : Part.mk box (chain ++ [t]) visible = (Part.mk box chain visible).under t := rfl
    rw [hunder] at finite ⊢
    rw [corners_under, image_under]
    exact (ih finite.of_under).transformed (finite_under.1 finite)

end Part

/-! ### Where many parts are seen -/

/-- The corners of some parts, where they are seen. -/
def points (ps : List Part) : List Vec3 := ps.flatMap Part.corners

section Points

variable {ps qs : List Part} {t : Transform}

/-- The corners of parts below one more transform. -/
theorem points_under (t : Transform) (ps : List Part) :
    points (ps.map (Part.under t)) = (points ps).map t.apply := by
  rw [points, points, List.flatMap_map, List.map_flatMap]
  exact List.flatMap_congr fun p _ => Part.corners_under t p

/-- Finite parts are those with finite corners. -/
theorem finite_points : (∀ q ∈ points ps, q.Finite) ↔ ∀ p ∈ ps, p.Finite :=
  List.forall_mem_flatMap

/-- More parts have more corners. -/
theorem points_subset (h : ps ⊆ qs) : points ps ⊆ points qs := by
  intro q hq
  obtain ⟨p, hp, hpq⟩ := List.mem_flatMap.1 hq
  exact List.mem_flatMap.2 ⟨p, h hp, hpq⟩

/-- The corners depend neither on the order of the parts nor on rotations. -/
theorem points_subset_of_perm (h : (ps.map Part.still).Perm (qs.map Part.still)) :
    points ps ⊆ points qs := by
  have hstill (ps : List Part) : points (ps.map Part.still) = points ps := by
    rw [points, points, List.flatMap_map]
    exact List.flatMap_congr fun p _ => p.corners_still
  rw [← hstill ps, ← hstill qs]
  exact points_subset h.subset

end Points

/-! ### Walking through the nodes -/

section Walk

variable {b : Box} {qs : List Vec3}

/-- A leaf widens a box by its corners, if it has something to see. -/
theorem surrounds_leaf {own : Box} {t : Transform} (h : Surrounds qs b)
    (hfinite : ∀ p ∈ leaf own t, p.Finite) :
    Surrounds (qs ++ points (leaf own t)) (b.union (own.transformed t)) := by
  unfold leaf at hfinite ⊢
  split at hfinite
  next hempty =>
    rw [dif_pos hempty, Box.transformed, if_pos hempty, Box.union, if_pos hempty, points,
      List.flatMap_nil, List.append_nil]
    exact h
  next visible =>
    rw [dif_neg visible, points, List.flatMap_singleton]
    exact h.union (Part.surrounds_image (hfinite _ List.mem_cons_self))

mutual

/-- **A node** widens a box by the corners of its parts. -/
theorem surrounds_bounds : ∀ (n : Node) {b : Box} {qs : List Vec3}, Surrounds qs b →
    (∀ p ∈ n.parts, p.Finite) → Surrounds (qs ++ points n.parts) (b.union n.bounds)
  | .group name t children, b, qs, h, hfinite => by
    have hunder (p : Part) (hp : p ∈ partsOf children) : (p.under t).Finite :=
      hfinite _ (List.mem_map_of_mem hp)
    have hchildren := surrounds_union children .none fun p hp => (hunder p hp).of_under
    have himages : ∀ q ∈ points (partsOf children), (t.apply q).Finite :=
      List.forall_mem_flatMap.2 fun p hp => Part.finite_under.1 (hunder p hp)
    rw [Node.bounds, Node.localBounds, Node.parts, points_under]
    exact h.union (hchildren.transformed himages)
  | .mesh m, b, qs, h, hfinite => by
    rw [Node.bounds, Node.localBounds, Node.parts]
    exact surrounds_leaf h hfinite
  | .sprite s, b, qs, h, hfinite => by
    rw [Node.bounds, Node.localBounds, Node.parts]
    exact surrounds_leaf h hfinite

/-- **Nodes in a row** widen a box by the corners of all their parts. -/
theorem surrounds_union : ∀ (ns : List Node) {b : Box} {qs : List Vec3}, Surrounds qs b →
    (∀ p ∈ partsOf ns, p.Finite) → Surrounds (qs ++ points (partsOf ns)) (Node.union b ns)
  | [], b, qs, h, _ => by
    rw [Node.union, partsOf, points, List.flatMap_nil, List.append_nil]
    exact h
  | n :: ns, b, qs, h, hfinite => by
    have hn := surrounds_bounds n h fun p hp => hfinite p (List.mem_append_left _ hp)
    have hns := surrounds_union ns hn fun p hp => hfinite p (List.mem_append_right _ hp)
    rw [Node.union, partsOf, points, List.flatMap_append, ← List.append_assoc]
    exact hns

end

/-- The boxes of some parts, joined one by one. -/
theorem surrounds_foldl_image {ps : List Part} (h : Surrounds qs b)
    (hfinite : ∀ p ∈ ps, p.Finite) :
    Surrounds (qs ++ points ps) (ps.foldl (fun b p => b.union p.image) b) := by
  induction ps generalizing qs b with
  | nil =>
    rw [points, List.flatMap_nil, List.append_nil]
    exact h
  | cons p ps ih =>
    obtain ⟨hp, hps⟩ := List.forall_mem_cons.1 hfinite
    have joined := ih (h.union (Part.surrounds_image hp)) hps
    rw [points, List.flatMap_cons, ← List.append_assoc]
    exact joined

end Walk

/-! ### The bounds of a group -/

/-- The box of a group is the box around the corners below it. -/
theorem surrounds_localBounds {g : Group} (hfinite : ∀ p ∈ g.parts, p.Finite) :
    Surrounds (points g.parts) g.localBounds :=
  surrounds_union g.children .none hfinite

/-- A group with nothing to see has the empty box. -/
theorem localBounds_of_no_parts {g : Group} (hnone : g.parts = []) : g.localBounds = .empty := by
  have around : Surrounds (points g.parts) g.localBounds :=
    surrounds_localBounds fun p hp => by
      rw [hnone] at hp
      cases hp
  rw [hnone] at around
  exact surrounds_nil.1 around

/-- A part has corners. -/
theorem points_ne_nil {ps : List Part} (hne : ps ≠ []) : points ps ≠ [] := by
  obtain ⟨p, ps, rfl⟩ := List.exists_cons_of_ne_nil hne
  exact List.ne_nil_of_mem
    (List.mem_flatMap.2 ⟨p, List.mem_cons_self, List.mem_map_of_mem p.box.lower_mem_corners⟩)

/-- **The bounds of a group.** If there is nothing to see below a group, they are the empty box.
Otherwise they are the smallest box around the corners of all leaves with something to see, where
these are seen, as far as that is at finite points: they hold the corners, each of their sides
touches one, and every other box that holds them reaches as far. This is the union of the boxes
of all these leaves at once. It is the same however the scene is arranged, and an addition at any
depth makes it no smaller. -/
theorem localBounds_hull (g : Group) (hfinite : ∀ p ∈ g.parts, p.Finite) :
    (g.parts = [] → g.localBounds = .empty) ∧
      (g.parts ≠ [] → Encloses (points g.parts) g.localBounds ∧
        ∀ b : Box, (∀ q ∈ points g.parts, b.Holds q) → g.localBounds.Within b) ∧
      g.localBounds.Same (hull g.parts) ∧
      (∀ g' : Group, Rearranged g.children g'.children → g'.localBounds.Same g.localBounds) ∧
      ∀ (n : Node) (path : List ℕ) (g' : Group), g.updateAt (·.add n) path = some g' →
        (∀ p ∈ g'.parts, p.Finite) → g.localBounds.Within g'.localBounds := by
  have around := surrounds_localBounds hfinite
  refine ⟨localBounds_of_no_parts, fun hne => ?_, ?_, fun g' h => ?_, fun n path g' h hfinite' => ?_⟩
  · have encloses := around.encloses (points_ne_nil hne)
    exact ⟨encloses, fun b => encloses.within⟩
  · have union : Surrounds (points g.parts) (hull g.parts) :=
      surrounds_foldl_image .none hfinite
    exact around.same union (List.Subset.refl _) (List.Subset.refl _)
  · have hperm := h.parts_perm
    have hsubset : points g.parts ⊆ points g'.parts := points_subset_of_perm hperm
    have hsubset' : points g'.parts ⊆ points g.parts := points_subset_of_perm hperm.symm
    have hfinite' : ∀ p ∈ g'.parts, p.Finite :=
      finite_points.1 fun q hq => around.finite q (hsubset' hq)
    exact (surrounds_localBounds hfinite').same around hsubset' hsubset
  · have hsubset : points g.parts ⊆ points g'.parts :=
      points_subset (parts_subset_of_updateAt h).1
    exact around.within (surrounds_localBounds hfinite') hsubset

/-- A unit square at some place, held by its lower left corner. -/
def stamp (x y : Float32) : Node :=
  .sprite { Sprite.ofMaterial (.solid .white) with
    transform := .moved ⟨x, y, 0⟩, centerX := 0, centerY := 0 }

/-- Nodes seen in a mirror that makes them twice as wide, and stands to the right. -/
def mirror (children : List Node) : Node :=
  .group "mirror" { Transform.moved ⟨10, 0, 0⟩ with scale := ⟨-2, 1, 1⟩ } children

/-- A scene of a mirror, and a group with nothing in it. -/
def mirrorScene (children : List Node) : Group :=
  ⟨"scene", .identity, [mirror children, .group "hollow" (.moved .one) []]⟩

/-- A square in the mirror, from 3 to 4 along the first axis: it is scaled before it is moved, and
its sides change places. Then the empty group is gone and the mirror is turned, or there is one
more square. -/
theorem mirrorScene_bounds :
    let g := mirrorScene [stamp 3 0]
    let b : Box := ⟨⟨2, 0, 0⟩, ⟨4, 1, 0⟩⟩
    (∀ p ∈ g.parts, p.Finite) ∧ g.localBounds.Same b ∧
      Encloses (points g.parts) g.localBounds ∧ g.localBounds.Same (hull g.parts) ∧
      (Group.mk "scene" .identity [(mirror [stamp 3 0]).turned .one]).localBounds.Same
        g.localBounds ∧
      g.localBounds.Within (mirrorScene [stamp 3 0, stamp 5 2]).localBounds ∧
      (mirrorScene [stamp 3 0, stamp 5 2]).localBounds.Same ⟨⟨-2, 0, 0⟩, ⟨4, 3, 0⟩⟩ := by
  intro g b
  have hfinite : ∀ p ∈ g.parts, p.Finite := by decide +kernel
  have hfinite' : ∀ p ∈ (mirrorScene [stamp 3 0, stamp 5 2]).parts, p.Finite := by
    decide +kernel
  obtain ⟨-, hencloses, hhull, hsame, hwithin⟩ := localBounds_hull g hfinite
  have hhollow : Rearranged g.children [mirror [stamp 3 0]] :=
    .trans (.perm (List.Perm.swap _ _ [])) (.hollow "hollow" (.moved .one) [mirror [stamp 3 0]])
  have hturned : Rearranged g.children [(mirror [stamp 3 0]).turned .one] :=
    hhollow.trans (.symm (.turned .one (mirror [stamp 3 0]) []))
  exact ⟨hfinite, by decide +kernel, (hencloses (List.cons_ne_nil _ _)).1, hhull,
    hsame ⟨_, .identity, _⟩ hturned, hwithin (stamp 5 2) [0] _ rfl hfinite', by decide +kernel⟩

end Marquee.Scene
