import Marquee.Proofs.Heading.Centered
import Marquee.Proofs.Heading.Offsets

/-!
# Runs That Stay Apart

A run of text is placed by the origin of its solid, but what it takes up in the row is the width
of its ink. The ink begins at its bearing: behind the origin or before it, and where a bevel grows
it begins earlier. So a run reaches out of the place that is kept for it by as much as its
bearing, to the right or to the left, and only the gaps on its sides make up for that. Emotes
have no bearing.

If all bearings are close to some common one, every group lies in a cell of its own: from the
cursor before it to the cursor behind it, both moved by the common bearing. Then no two of them
meet. Close is less than the least gap, as one gap stands on either side; a little of it is taken
by rounding, three units of a number as large as the row is wide, as there are five results on the
way, each off by half a unit. Where bearings differ by more than that runs collide, although the
least gap is kept between the places of both.

## Main statements

* `Cell.Forward.holds` — a cell holds what is placed in it;
* `Draft.apart_ofLeaves` — the groups lie apart, leaf by leaf;
* `runs_apart` — no two groups of a row meet if their bearings are close.
-/

namespace Marquee

open Fetch Markup Number Scene Space

/-! ### Exact results -/

namespace Number

variable {x y : Float32} {q r : ℚ}

/-- A finite number is exactly what it is worth. -/
theorem Exact.of_isFinite (hx : x.isFinite) : Exact x (value x) := ⟨hx, rfl⟩

/-- A fraction that a number is exactly is rounded to itself. -/
theorem Exact.nearest_eq (hx : Exact x q) : nearest q = q := by
  obtain ⟨fx, rfl⟩ := hx
  exact nearest_value fx

/-- Such a fraction is not too large. -/
theorem Exact.inRange (hx : Exact x q) : InRange q := by
  obtain ⟨fx, rfl⟩ := hx
  exact inRange_value fx

/-- A product whose exact result is a number of single precision, is exact. -/
theorem Exact.mul (hx : Exact x q) (hy : Exact y r) {p : Float32} (hp : Exact p (q * r)) :
    Exact (x * y) (q * r) := by
  have finite := (isFinite_mul_iff hx.finite hy.finite).2
    (by rw [hx.value_eq, hy.value_eq]; exact hp.inRange)
  refine ⟨finite, ?_⟩
  rw [value_mul hx.finite hy.finite finite, hx.value_eq, hy.value_eq, hp.nearest_eq]

/-- A sum of exact numbers is exactly the rounded sum. -/
theorem Exact.add (hx : Exact x q) (hy : Exact y r) (range : InRange (q + r)) :
    Exact (x + y) (nearest (q + r)) := by
  rw [← hx.value_eq, ← hy.value_eq] at range ⊢
  have finite := (isFinite_add_iff hx.finite hy.finite).2 range
  exact ⟨finite, value_add hx.finite hy.finite finite⟩

/-- Zero is exact. -/
theorem exact_zero : Exact 0 0 := by decide +kernel

/-- One is exact. -/
theorem exact_one : Exact 1 1 := by decide +kernel

/-- Stretching by one leaves an exact number as it is. -/
theorem Exact.times_one (hx : Exact x q) : Exact (x * 1) q := by
  have hmul := hx.mul exact_one ((mul_one q).symm ▸ hx)
  rwa [mul_one] at hmul

/-- Moving by zero leaves an exact number as it is. -/
theorem Exact.plus_zero (hx : Exact x q) : Exact (x + 0) q := by
  have hadd := hx.add exact_zero ((add_zero q).symm ▸ hx.inRange)
  rwa [add_zero, hx.nearest_eq] at hadd

/-- The gaps and the width of a cell are finite if the cursor behind it is. -/
theorem isFinite_of_sums {z u : Float32} (h : (x + (y + z + u)).isFinite) :
    y.isFinite ∧ z.isFinite ∧ u.isFinite := by
  obtain ⟨hmore, hu⟩ := isFinite_of_add (isFinite_of_add h).2
  obtain ⟨hy, hz⟩ := isFinite_of_add hmore
  exact ⟨hy, hz, hu⟩

instance (q : ℚ) : Decidable (InRange q) :=
  inferInstanceAs (Decidable (|nearest q| < 2 ^ (128 : ℤ)))

end Number

/-! ### One axis of a box -/

namespace Space

/-- A box reaches exactly from one place to another along an axis. -/
structure Box.Reaches (b : Box) (i : Axis) (q r : ℚ) : Prop where
  lower : Exact (b.lower.along i) q
  upper : Exact (b.upper.along i) r

variable {b b' : Box} {i : Axis} {q r v : ℚ} {p p' : Vec3} {t : Transform}

/-- The empty box, widened to a point, reaches from there to there. -/
theorem reaches_widen_empty (hp : Exact (p.along i) v) : (Box.empty.widen p).Reaches i v v := by
  constructor
  · rwa [along_widen_empty_lower hp.finite]
  · rwa [along_widen_empty_upper hp.finite]

/-- A box that is widened reaches to one more place. -/
theorem Box.Reaches.widen (reaches : b.Reaches i q r) (hp : Exact (p.along i) v) :
    (b.widen p).Reaches i (q ⊓ v) (r ⊔ v) := by
  obtain ⟨⟨flower, rfl⟩, ⟨fupper, rfl⟩⟩ := reaches
  obtain ⟨fp, rfl⟩ := hp
  constructor
  · rw [along_widen_lower]
    exact ⟨isFinite_lesser flower fp, value_lesser flower fp⟩
  · rw [along_widen_upper]
    exact ⟨isFinite_greater fupper fp, value_greater fupper fp⟩

/-- The empty box is widened to two points in order. -/
theorem reaches_between (hp : Exact (p.along i) q) (hp' : Exact (p'.along i) r) (hqr : q ≤ r) :
    ((Box.empty.widen p).widen p').Reaches i q r := by
  have reaches := (reaches_widen_empty hp).widen hp'
  rwa [inf_eq_left.2 hqr, sup_eq_right.2 hqr] at reaches

/-- A box with its corners in order, once both are transformed. -/
theorem reaches_transformed (visible : ¬ b.isEmpty) (lower : Exact ((t.apply b.lower).along i) q)
    (upper : Exact ((t.apply b.upper).along i) r) (hqr : q ≤ r) :
    (b.transformed t).Reaches i q r := by
  rw [Box.transformed, if_neg visible]
  exact reaches_between lower upper hqr

/-- What can be seen once it is transformed could be seen before. -/
theorem visible_of_transformed (visible : ¬ (b.transformed t).isEmpty) : ¬ b.isEmpty := by
  intro empty
  rw [Box.transformed, if_pos empty] at visible
  exact visible empty

/-- **A union** of boxes that reach from one place to another, or are empty, does so too. -/
theorem reaches_union (hqr : q ≤ r) (hb : b = .empty ∨ b.Reaches i q r)
    (hb' : b'.isEmpty ∨ b'.Reaches i q r) : b.union b' = .empty ∨ (b.union b').Reaches i q r := by
  by_cases empty : b'.isEmpty
  · rwa [Box.union, if_pos empty]
  · rw [Box.union, if_neg empty]
    obtain ⟨lower, upper⟩ := hb'.resolve_left empty
    rcases hb with rfl | hb
    · exact .inr (reaches_between lower upper hqr)
    · have reaches := (hb.widen lower).widen upper
      rw [inf_idem, inf_eq_left.2 hqr, sup_eq_left.2 hqr, sup_idem] at reaches
      exact .inr reaches

end Space

namespace Scene

variable {i : Axis} {q r : ℚ}

/-- Nodes without anything to see add nothing to a box. -/
theorem union_of_isEmpty (b : Box) {ns : List Node} (hns : ∀ n ∈ ns, n.bounds.isEmpty) :
    Node.union b ns = b := by
  induction ns generalizing b with
  | nil => rfl
  | cons n ns ih =>
    obtain ⟨hn, hns⟩ := List.forall_mem_cons.1 hns
    have hempty : (n.localBounds.transformed n.transform).isEmpty := hn
    rw [Node.union, Box.union, if_pos hempty]
    exact ih b hns

/-- So do the boxes of nodes. -/
theorem reaches_nodes {b : Box} {ns : List Node} (hqr : q ≤ r) (hb : b = .empty ∨ b.Reaches i q r)
    (hns : ∀ n ∈ ns, n.bounds.isEmpty ∨ n.bounds.Reaches i q r) :
    Node.union b ns = .empty ∨ (Node.union b ns).Reaches i q r := by
  induction ns generalizing b with
  | nil => exact hb
  | cons n ns ih =>
    obtain ⟨hn, hns⟩ := List.forall_mem_cons.1 hns
    rw [Node.union]
    exact ih (reaches_union hqr hb hn) hns

/-- Seen from outside, the box of a group is moved by its transform. -/
theorem Group.bounds_toNode (g : Group) :
    g.toNode.bounds = g.localBounds.transformed g.transform := by
  rw [Node.bounds, Group.localBounds_toNode]
  rfl

/-- **A group with something to see** reaches as far as its children do, from where it is
moved. -/
theorem reaches_group {g : Group} {q' r' : ℚ} (hqr : q ≤ r) (hqr' : q' ≤ r')
    (hns : ∀ n ∈ g.children, n.bounds.isEmpty ∨ n.bounds.Reaches i q r)
    (lower : ∀ p : Vec3, Exact (p.along i) q → Exact ((g.transform.apply p).along i) q')
    (upper : ∀ p : Vec3, Exact (p.along i) r → Exact ((g.transform.apply p).along i) r')
    (visible : ¬ g.toNode.bounds.isEmpty) : g.toNode.bounds.Reaches i q' r' := by
  rw [Group.bounds_toNode] at visible ⊢
  have visible := visible_of_transformed visible
  rcases reaches_nodes hqr (.inl rfl) hns with empty | reaches
  · rw [Group.localBounds, empty] at visible
    exact absurd isEmpty_empty visible
  · exact reaches_transformed visible (lower _ reaches.lower) (upper _ reaches.upper) hqr'

/-- Text that is not moved reaches from its lower to its upper corner. -/
theorem reaches_mesh {g : TextGeometry} (materials : MaterialPair) (visible : ¬ g.bounds.isEmpty)
    (hlower : Exact (g.bounds.lower.along i) q) (hupper : Exact (g.bounds.upper.along i) r)
    (hqr : q ≤ r) : (Node.mesh (.ofGeometry g materials)).bounds.Reaches i q r := by
  have still (p : Vec3) {v : ℚ} (hp : Exact (p.along i) v) :
      Exact ((Transform.identity.apply p).along i) v := by
    rw [along_apply]
    cases i <;> exact hp.times_one.plus_zero
  exact reaches_transformed visible (still _ hlower) (still _ hupper) hqr

/-- **A solid of finite width** reaches from its bearing as far as it is wide. -/
theorem TextGeometry.exists_reaches {g : TextGeometry} (finite : g.width.isFinite)
    (materials : MaterialPair) : ∃ q r, q ≤ r ∧ value g.width = nearest (r - q) ∧
      ((Node.mesh (.ofGeometry g materials)).bounds.isEmpty ∨
        (Node.mesh (.ofGeometry g materials)).bounds.Reaches .x q r) := by
  rw [width, Box.size] at finite ⊢
  by_cases empty : g.bounds.isEmpty
  · have hbounds : (Node.mesh (.ofGeometry g materials)).bounds = g.bounds := if_pos empty
    rw [if_pos empty, hbounds]
    refine ⟨0, 0, le_rfl, ?_, .inl empty⟩
    rw [sub_zero, nearest_zero]
    exact value_zero
  · rw [if_neg empty] at finite ⊢
    obtain ⟨fupper, flower⟩ := isFinite_of_sub finite
    have ordered : value g.bounds.lower.x ≤ value g.bounds.upper.x := by
      rw [← not_lt, ← lt_iff_value fupper flower]
      exact fun hlt => empty ((isEmpty_iff _).2 ⟨.x, hlt⟩)
    exact ⟨_, _, ordered, value_sub fupper flower finite,
      .inr (reaches_mesh materials empty (.of_isFinite flower) (.of_isFinite fupper) ordered)⟩

end Scene

namespace Heading

/-- A sprite that stands on its corner reaches as far as it is wide. -/
theorem reaches_sprite {width : Float32} {v : ℚ} (hwidth : Exact width v) (hv : 0 ≤ v)
    (height z : Float32) (material : SpriteMaterial) (placeholder : Bool) :
    (Node.sprite (Stack.sprite width height z material placeholder)).bounds.Reaches .x 0 v := by
  have hleft : Exact (-0) 0 := by decide +kernel
  have hright : Exact (1 - 0) 1 := by decide +kernel
  have hlower := hleft.mul hwidth (by rw [zero_mul]; exact exact_zero)
  have hupper := hright.mul hwidth (by rwa [one_mul])
  rw [zero_mul] at hlower
  rw [one_mul] at hupper
  have visible : ¬ (Box.mk ⟨-0, -0, 0⟩ ⟨1 - 0, 1 - 0, 0⟩).isEmpty := by decide +kernel
  exact reaches_transformed visible hlower.plus_zero hupper.plus_zero hv

/-- An emote that is there or not reaches as far as it is wide. -/
theorem reaches_shown {o : Options} {v : ℚ} (hsize : Exact o.emoteSize v) (hv : 0 ≤ v) (s : Store)
    (id : String) : ∀ n ∈ shown o s id, n.bounds.Reaches .x 0 v := by
  intro n hn
  rw [shown] at hn
  split at hn
  · obtain ⟨i, -, rfl⟩ := List.mem_map.1 hn
    exact reaches_sprite hsize hv ..
  · rw [List.mem_singleton.1 hn]
    exact reaches_sprite hsize hv ..

/-! ### Cells -/

/-- A gap is no less than the least gap. -/
theorem Options.Forward.minGap_le_gap {o : Options} (forward : o.Forward) {cs : List Char}
    (word : cs.length < 2 ^ 64) (finite : (Draft.gap o cs).isFinite) :
    value o.minGap ≤ value (Draft.gap o cs) := by
  have hblanks := forward.blanks word
  have hle : o.minGap ≤ Draft.gap o cs := by
    rw [Draft.gap, greater]
    split_ifs with undefined less
    · exact le_refl_of_nonneg forward.minGap
    · exact le_refl_of_nonneg forward.minGap
    · exact le_of_not_lt hblanks forward.minGap less
  exact (le_iff_value (isFinite_of_le forward.minGap finite hle) finite).1 hle

/-- The place of a thing with a gap on either side, between the cursor before and after it. -/
structure Cell where
  start : Float32
  lead : Float32
  width : Float32
  trail : Float32

namespace Cell

/-- Where the thing stands. -/
def place (c : Cell) : Float32 := c.start + c.lead

/-- Where the cursor moves on to. -/
def stop (c : Cell) : Float32 := c.start + (c.lead + c.width + c.trail)

/-- No measure leads back, and the cursor stays finite. -/
structure Forward (c : Cell) : Prop where
  start : 0 ≤ c.start
  lead : 0 ≤ c.lead
  width : 0 ≤ c.width
  trail : 0 ≤ c.trail
  finite : c.stop.isFinite

variable {c : Cell} {w q r t : ℚ}

/-- The sums on the way from the start of a cell to its stop are finite, and they grow. -/
structure Steps (c : Cell) : Prop where
  place : c.place.isFinite
  more : (c.lead + c.width).isFinite
  sum : (c.lead + c.width + c.trail).isFinite
  place_le : value c.place ≤ value c.stop
  lead_le : value c.lead ≤ value (c.lead + c.width)
  width_le : value c.width ≤ value (c.lead + c.width)
  more_le : value (c.lead + c.width) ≤ value (c.lead + c.width + c.trail)
  trail_le : value c.trail ≤ value (c.lead + c.width + c.trail)
  start_le : value c.start ≤ value c.stop
  sum_le : value (c.lead + c.width + c.trail) ≤ value c.stop

/-- None of the sums exceeds the stop. -/
theorem Forward.steps (forward : c.Forward) : c.Steps := by
  obtain ⟨hstart, hlead, hwidth, htrail, finite⟩ := forward
  have hmore := zero_le_add hlead hwidth
  have hsum := zero_le_add hmore htrail
  have hlead_le : c.lead ≤ c.lead + c.width + c.trail :=
    le_trans_of_nonneg hlead hmore hsum (le_add hlead hwidth) (le_add hmore htrail)
  have hplace_le : c.place ≤ c.stop := add_le_add_of_le hstart hlead hsum hlead_le
  have fplace := isFinite_of_le (zero_le_add hstart hlead) finite hplace_le
  have fsum := (isFinite_of_add finite).2
  have fmore := (isFinite_of_add fsum).1
  exact
    { place := fplace
      more := fmore
      sum := fsum
      place_le := (le_iff_value fplace finite).1 hplace_le
      lead_le := (value_le_add hlead hwidth fmore).1
      width_le := (value_le_add hlead hwidth fmore).2
      more_le := (value_le_add hmore htrail fsum).1
      trail_le := (value_le_add hmore htrail fsum).2
      start_le := (value_le_add hstart hsum finite).1
      sum_le := (value_le_add hstart hsum finite).2 }

/-- **A cell holds its thing**, although it is placed by the origin of that, once the cell is moved
by about as much as the thing begins before its origin or behind it. The gaps leave room for the
difference. Five sums and differences are rounded, by half a unit each; with these bounds the rest
is linear. -/
theorem Forward.holds (forward : c.Forward) (hw : value c.stop ≤ w)
    (measured : value c.width = nearest (r - q))
    (front : |q - t| + 3 * 2 ^ unit w ≤ value c.lead)
    (back : |q - t| + 3 * 2 ^ unit w ≤ value c.trail) :
    value c.start + t ≤ value c.place + q ∧ value c.place + r ≤ value c.stop + t := by
  have steps := forward.steps
  obtain ⟨hstart, hlead, hwidth, htrail, finite⟩ := forward
  have hgrain : (0 : ℚ) < 2 ^ unit w := by positivity
  have hbefore := neg_abs_le (q - t)
  have hbehind := le_abs_self (q - t)
  have hpos : 0 < w := by linarith [steps.lead_le, steps.more_le, steps.sum_le]
  have hmore_le : value (c.lead + c.width) ≤ w := by linarith [steps.more_le, steps.sum_le]
  have hwidth_nonneg : 0 ≤ value c.width :=
    zero_le_value (isFinite_of_add steps.more).2 hwidth
  have hwidth_le : |nearest (r - q)| ≤ w := by
    rw [← measured, abs_of_nonneg hwidth_nonneg]
    exact steps.width_le.trans hmore_le
  have hmeasured := abs_le.1 (abs_nearest_sub_le hpos hwidth_le)
  have hplace := abs_le.1
    (abs_value_add_sub_le hstart hlead steps.place hpos (steps.place_le.trans hw))
  have hmore := abs_le.1 (abs_value_add_sub_le hlead hwidth steps.more hpos hmore_le)
  have hsum := abs_le.1 (abs_value_add_sub_le (zero_le_add hlead hwidth) htrail steps.sum hpos
    (steps.sum_le.trans hw))
  have hstop := abs_le.1 (abs_value_add_sub_le hstart
    (zero_le_add (zero_le_add hlead hwidth) htrail) finite hpos hw)
  rw [← measured] at hmeasured
  rw [place, stop] at *
  constructor <;> linarith

end Cell

/-! ### The row -/

/-- Whether a group, if there is anything to see of it, lies between two places, but for the last
rounding. -/
def Lies (g : Group) (a b : ℚ) : Prop :=
  ¬ g.toNode.bounds.isEmpty →
    ∃ q r, g.toNode.bounds.Reaches .x (nearest q) (nearest r) ∧ a ≤ q ∧ r ≤ b

/-- Without children that can be seen there is nothing to see of a group. -/
theorem lies_of_isEmpty {g : Group} (hns : ∀ n ∈ g.children, n.bounds.isEmpty) (a b : ℚ) :
    Lies g a b := by
  intro visible
  rw [Group.bounds_toNode, Group.localBounds, union_of_isEmpty _ hns] at visible
  exact absurd isEmpty_empty (visible_of_transformed visible)

/-- The least gap leaves room for how far the bearings of what can be seen in a group are from a
common one, and for what is lost to rounding. -/
def RoomFor (o : Options) (w t : ℚ) (children : List Node) : Prop :=
  ∀ n ∈ children, ¬ n.bounds.isEmpty →
    |value n.bounds.lower.x - t| + 3 * 2 ^ unit w ≤ value o.minGap

instance (o : Options) (w t : ℚ) (ns : List Node) : Decidable (RoomFor o w t ns) :=
  inferInstanceAs (Decidable (∀ n ∈ ns, ¬ n.bounds.isEmpty → _))

/-- **What lies in a cell**, once it is placed there. The ends of the thing stay within the moved
row, so they are not too large. -/
theorem Cell.Forward.lies {c : Cell} (forward : c.Forward) {o : Options} {w q r t : ℚ}
    (hw : value c.stop ≤ w) (range : InRange t) (range' : InRange (w + t)) (hqr : q ≤ r)
    (measured : value c.width = nearest (r - q)) (hlead : value o.minGap ≤ value c.lead)
    (htrail : value o.minGap ≤ value c.trail) (name : String) {children : List Node}
    (hns : ∀ n ∈ children, n.bounds.isEmpty ∨ n.bounds.Reaches .x q r)
    (room : RoomFor o w t children) :
    Lies (Draft.group name c.place children) (value c.start + t) (value c.stop + t) := by
  by_cases unseen : ∀ n ∈ children, n.bounds.isEmpty
  · exact lies_of_isEmpty unseen _ _
  push Not at unseen
  obtain ⟨n, hn, seen⟩ := unseen
  have hq : value n.bounds.lower.x = q := ((hns n hn).resolve_left seen).lower.value_eq
  have bearing := room n hn seen
  rw [hq] at bearing
  intro visible
  obtain ⟨hstart, hstop⟩ := forward.holds hw measured (bearing.trans hlead) (bearing.trans htrail)
  have fstart := (isFinite_of_add forward.finite).1
  have hzero := zero_le_value fstart forward.start
  have placed {v : ℚ} (hlower : t ≤ v + value c.place) (hupper : v + value c.place ≤ w + t)
      (p : Vec3) (hp : Exact (p.along .x) v) :
      Exact (((Transform.moved ⟨c.place, 0, 0⟩).apply p).along .x)
        (nearest (v + value c.place)) := by
    rw [along_apply_moved]
    exact hp.times_one.add (.of_isFinite forward.steps.place)
      (inRange_of_between range range' hlower hupper)
  refine ⟨_, _, reaches_group hqr (nearest_mono (add_le_add_left hqr _)) hns
    (placed ?_ ?_) (placed ?_ ?_) visible, ?_, ?_⟩
  all_goals linarith

namespace Draft

/-- What there is to see of a group lies left of what there is to see of another. -/
def LeftOf (g g' : Group) : Prop :=
  ¬ g.toNode.bounds.isEmpty → ¬ g'.toNode.bounds.isEmpty →
    g.toNode.bounds.upper.x ≤ g'.toNode.bounds.lower.x

instance : DecidableRel LeftOf := fun g g' =>
  inferInstanceAs (Decidable (¬ g.toNode.bounds.isEmpty → ¬ g'.toNode.bounds.isEmpty → _))

/-- The groups of a draft lie apart, and behind its cursor, moved by a common bearing. -/
structure Apart (t : ℚ) (d : Draft) : Prop where
  zero_le : 0 ≤ d.cursor
  apart : d.groups.Pairwise LeftOf
  behind : ∀ g ∈ d.groups, ∃ a, Lies g a (value d.cursor + t)

variable {d d' : Draft} {o : Options} {w t : ℚ}

/-- A draft without groups has none that meet. -/
theorem apart_start (t : ℚ) (s : Store) : Apart t (start s) :=
  ⟨(by decide : (0 : Float32) ≤ 0), .nil, fun _ hg => by cases hg⟩

/-- **One more group** in a cell of its own. -/
theorem Apart.snoc (apart : Apart t d) {g : Group} (groups : d'.groups = d.groups ++ [g])
    (lies : Lies g (value d.cursor + t) (value d'.cursor + t)) (zero_le : 0 ≤ d'.cursor)
    (le : value d.cursor ≤ value d'.cursor) : Apart t d' := by
  refine ⟨zero_le, ?_, fun f hf => ?_⟩
  · rw [groups, List.pairwise_append]
    refine ⟨apart.apart, List.pairwise_singleton .., fun f hf g' hg' visible visible' => ?_⟩
    obtain rfl := List.mem_singleton.1 hg'
    obtain ⟨a, hbehind⟩ := apart.behind f hf
    obtain ⟨q, r, ⟨-, hupper⟩, -, hr⟩ := hbehind visible
    obtain ⟨q', r', ⟨hlower, -⟩, hq', -⟩ := lies visible'
    refine (le_iff_value hupper.finite hlower.finite).2 ?_
    rw [hupper.value_eq, hlower.value_eq]
    exact nearest_mono (hr.trans hq')
  · rw [groups] at hf
    rcases List.mem_append.1 hf with hf | hf
    · obtain ⟨a, hbehind⟩ := apart.behind f hf
      refine ⟨a, fun visible => ?_⟩
      obtain ⟨q, r, reaches, hq, hr⟩ := hbehind visible
      exact ⟨q, r, reaches, hq, hr.trans (add_le_add_left le t)⟩
    · rw [List.mem_singleton.1 hf]
      exact ⟨_, lies⟩

/-- A blank text has nothing to see, and does not lead back. -/
theorem Apart.space (apart : Apart t d) (forward : o.Forward) {text : List Char}
    (word : text.length < 2 ^ 64) (finite : (d.space o text).cursor.isFinite) :
    Apart t (d.space o text) := by
  have hblanks := forward.blanks word
  have lies := lies_of_isEmpty (g := group "space" d.cursor []) (List.forall_mem_nil _)
  exact apart.snoc rfl (lies _ _) (zero_le_add apart.zero_le hblanks)
    (value_le_add apart.zero_le hblanks finite).1

/-- A group in a cell moves the cursor from the start of that to its stop. -/
theorem Apart.cell (apart : Apart t d) {c : Cell} (forward : c.Forward) {g : Group}
    (groups : d'.groups = d.groups ++ [g]) (start : c.start = d.cursor) (stop : c.stop = d'.cursor)
    (lies : Lies g (value c.start + t) (value c.stop + t)) : Apart t d' := by
  have hmore := zero_le_add forward.lead forward.width
  have hstop : 0 ≤ c.stop := zero_le_add forward.start (zero_le_add hmore forward.trail)
  have hle := forward.steps.start_le
  rw [start, stop] at lies hle
  rw [stop] at hstop
  exact apart.snoc groups lies hstop hle

/-- The leading blanks of a text are no more than its characters. -/
theorem length_leading_le (text : List Char) : (Text.leading text).length ≤ text.length :=
  (List.takeWhile_prefix _).length_le

/-- The trailing blanks of a text are no more than its characters. -/
theorem length_trailing_le (text : List Char) : (Text.trailing text).length ≤ text.length := by
  rw [Text.trailing, List.length_reverse]
  exact (List.takeWhile_prefix _).length_le.trans_eq text.length_reverse

/-- A leaf moves the cursor on, if it stays finite. -/
theorem exists_advance (forward : o.Forward) {leaf : Leaf} (countable : Countable leaf)
    (finite : (d.add o leaf).cursor.isFinite) :
    ∃ x, 0 ≤ x ∧ (d.add o leaf).cursor = d.cursor + x := by
  cases leaf with
  | text value color style =>
    rw [Draft.add] at finite ⊢
    split at finite
    · next blank =>
      rw [if_pos blank]
      exact ⟨_, forward.blanks countable, rfl⟩
    · next ink =>
      rw [if_neg ink]
      have hleading := forward.gap ((length_leading_le value.toList).trans_lt countable)
      have htrailing := forward.gap ((length_trailing_le value.toList).trans_lt countable)
      obtain ⟨geometry, materials, hcursor, -⟩ := exists_run d o value.toList color style
      rw [hcursor] at finite ⊢
      obtain ⟨-, fwidth, -⟩ := isFinite_of_sums finite
      have hwidth := TextGeometry.zero_le_width (isNaN_of_isFinite fwidth)
      exact ⟨_, zero_le_add (zero_le_add hleading hwidth) htrailing, rfl⟩
  | emote id color style =>
    exact ⟨_, zero_le_add (zero_le_add forward.minGap forward.emoteSize) forward.minGap, rfl⟩

/-- A run stands in its cell, behind all cells before. -/
theorem Apart.run (apart : Apart t d) (forward : o.Forward) {text : List Char}
    (word : text.length < 2 ^ 64) (color : String) (style : Style)
    (finite : (d.run o text color style).cursor.isFinite)
    (hw : value (d.run o text color style).cursor ≤ w) (range : InRange t)
    (range' : InRange (w + t))
    (room : ∀ g ∈ (d.run o text color style).groups, RoomFor o w t g.children) :
    Apart t (d.run o text color style) := by
  have hleading := (length_leading_le text).trans_lt word
  have htrailing := (length_trailing_le text).trans_lt word
  obtain ⟨geometry, materials, hcursor, hgroups⟩ := exists_run d o text color style
  have room := room _ (hgroups ▸ List.mem_append_right _ List.mem_cons_self)
  rw [hcursor] at finite hw
  obtain ⟨flead, fwidth, ftrail⟩ := isFinite_of_sums finite
  obtain ⟨q, r, hqr, measured, reaches⟩ := TextGeometry.exists_reaches fwidth materials
  have cell : Cell.Forward ⟨d.cursor, gap o (Text.leading text), geometry.width,
      gap o (Text.trailing text)⟩ :=
    ⟨apart.zero_le, forward.gap hleading, TextGeometry.zero_le_width (isNaN_of_isFinite fwidth),
      forward.gap htrailing, finite⟩
  have lies := cell.lies hw range range' hqr measured (forward.minGap_le_gap hleading flead)
    (forward.minGap_le_gap htrailing ftrail) ("text:" ++ .ofList (Text.core text))
    (List.forall_mem_singleton.2 reaches) room
  exact apart.cell cell hgroups rfl hcursor.symm lies

/-- An emote is shown one least gap behind the cursor. -/
theorem groups_emote (d : Draft) (o : Options) (id : String) :
    (d.emote o id).groups =
      d.groups ++ [group ("emote:" ++ id) (d.cursor + o.minGap) (shown o d.store id)] := by
  rw [shown, ← Store.texture?_fst]
  rfl

/-- An emote stands in its cell, behind all cells before. -/
theorem Apart.emote (apart : Apart t d) (forward : o.Forward) (id : String)
    (finite : (d.emote o id).cursor.isFinite) (hw : value (d.emote o id).cursor ≤ w)
    (range : InRange t) (range' : InRange (w + t))
    (room : ∀ g ∈ (d.emote o id).groups, RoomFor o w t g.children) : Apart t (d.emote o id) := by
  have room := room _ (groups_emote d o id ▸ List.mem_append_right _ List.mem_cons_self)
  have cell : Cell.Forward ⟨d.cursor, o.minGap, o.emoteSize, o.minGap⟩ :=
    ⟨apart.zero_le, forward.minGap, forward.emoteSize, forward.minGap, finite⟩
  have fsize : o.emoteSize.isFinite := (isFinite_of_sums finite).2.1
  have hsize := zero_le_value fsize forward.emoteSize
  have measured : value o.emoteSize = nearest (value o.emoteSize - 0) := by
    rw [sub_zero, nearest_value fsize]
  have reaches := reaches_shown (.of_isFinite fsize) hsize d.store id
  exact apart.cell cell (groups_emote d o id) rfl rfl (cell.lies hw range range' hsize measured
    le_rfl le_rfl _ (fun n hn => .inr (reaches n hn)) room)

/-- **One more leaf.** -/
theorem Apart.add (apart : Apart t d) (forward : o.Forward) {leaf : Leaf}
    (countable : Countable leaf) (finite : (d.add o leaf).cursor.isFinite)
    (hw : value (d.add o leaf).cursor ≤ w) (range : InRange t) (range' : InRange (w + t))
    (room : ∀ g ∈ (d.add o leaf).groups, RoomFor o w t g.children) : Apart t (d.add o leaf) := by
  cases leaf with
  | text value color style =>
    rw [Draft.add] at finite hw room ⊢
    split at finite
    · next blank =>
      rw [if_pos blank]
      exact apart.space forward countable finite
    · next ink =>
      rw [if_neg ink] at hw room ⊢
      exact apart.run forward countable color style finite hw range range' room
  | emote id color style => exact apart.emote forward id finite hw range range' room

/-- **The groups of a row lie apart** as long as the least gap leaves room for the differences of
their bearings. Induction on the leaves, from the last one: the bound on the last cursor is one on
all cursors before. -/
theorem apart_ofLeaves (forward : o.Forward) (s : Store) {leaves : List Leaf}
    (countable : ∀ leaf ∈ leaves, Countable leaf) (finite : (ofLeaves o leaves s).cursor.isFinite)
    (hw : value (ofLeaves o leaves s).cursor ≤ w) (range : InRange t) (range' : InRange (w + t))
    (room : ∀ g ∈ (ofLeaves o leaves s).groups, RoomFor o w t g.children) :
    Apart t (ofLeaves o leaves s) := by
  refine ofLeaves_induction (P := fun leaves d => (∀ leaf ∈ leaves, Countable leaf) →
    d.cursor.isFinite → value d.cursor ≤ w → (∀ g ∈ d.groups, RoomFor o w t g.children) →
    Apart t d) (fun _ _ _ _ => apart_start t s) (fun leaves leaf ih countable finite hw room => ?_)
    leaves countable finite hw room
  have hleaf := countable leaf (List.mem_append_right _ List.mem_cons_self)
  obtain ⟨g, hgroups⟩ := exists_groups_add (ofLeaves o leaves s) o leaf
  obtain ⟨x, hx, hadvance⟩ := exists_advance forward hleaf finite
  have finite_before : (ofLeaves o leaves s).cursor.isFinite := by
    rw [hadvance] at finite
    exact (isFinite_of_add finite).1
  have hle : value (ofLeaves o leaves s).cursor ≤
      value ((ofLeaves o leaves s).add o leaf).cursor := by
    rw [← le_iff_value finite_before finite]
    rw [hadvance] at finite ⊢
    exact le_add_of_isFinite hx finite
  have apart := ih (fun l hl => countable l (List.mem_append_left _ hl)) finite_before
    (hle.trans hw) fun f hf => room f (hgroups ▸ List.mem_append_left [g] hf)
  exact apart.add forward hleaf finite hw range range' room

end Draft

/-- A row is finite, and so it stays if it is moved by a common bearing. The bearings of what can
be seen in its groups differ from that by no more than the gaps leave room for, when three units
of a number as large as the row is wide are lost to rounding. -/
structure Roomy (o : Options) (h : Heading) (t : ℚ) : Prop where
  finite : h.width.isFinite
  start : InRange t
  stop : InRange (value h.width + t)
  room : ∀ g ∈ h.row.groups, RoomFor o (value h.width) t g.children

/-- **Runs stay apart** where their bearings are close: of any two groups of a row, if there is
something to see of both, the first ends before the second begins. -/
theorem runs_apart {o : Options} {leaves : List Leaf} (forward : o.Forward)
    (countable : ∀ leaf ∈ leaves, Countable leaf) (loader : Loader) (s : Store) {t : ℚ}
    (roomy : Roomy o (ofLeaves o loader leaves s).1 t) :
    (ofLeaves o loader leaves s).1.row.groups.Pairwise Draft.LeftOf := by
  obtain ⟨finite, start, stop, room⟩ := roomy
  have hgroups : (ofLeaves o loader leaves s).1.row.groups = (Draft.ofLeaves o leaves s).groups :=
    Draft.groups_row _
  rw [hgroups] at room ⊢
  exact (Draft.apart_ofLeaves forward s countable finite le_rfl start stop room).apart

/-- Options with a face whose ink begins off the pen by some part of the size, which is different
for one character. -/
def Options.offPen (one others : Float32) : Options where
  fonts := { regular := ⟨"off", fun c size =>
    ⟨size, if c = 'a' then size * one else size * others, 0, size * 0.5, size * 0.5⟩⟩ }
  layout := ⟨0.5, 0.125⟩

/-- As much as the least gap behind the pen, half of it before the pen, and an emote. -/
theorem runs_apart_off_pen :
    let leaves : List Leaf := [.text "a" "WHITE" .regular, .text "b" "RED" .italic,
      .emote "1" "WHITE" .bold, .text "b a " "WHITE" .regular]
    let h := (ofLeaves (.offPen 0.0625 (-0.03125)) .offline leaves {}).1
    (∀ g ∈ h.row.groups, ¬ g.toNode.bounds.isEmpty) ∧ h.row.groups.Pairwise Draft.LeftOf := by
  intro leaves h
  refine ⟨by decide +kernel, runs_apart (t := 3 / 2) ?_ ?_ .offline {} ?_⟩
  · exact ⟨by decide +kernel, by decide +kernel, by decide +kernel, by decide +kernel⟩
  · simp only [leaves, List.forall_mem_cons, Countable]
    exact ⟨by decide, by decide, trivial, by decide, fun _ h => by cases h⟩
  · exact ⟨by decide +kernel, by decide +kernel, by decide +kernel, by decide +kernel⟩

/-- Four times the least gap behind the pen, and before it. All measures are positive, and still
the first run does not end before the second begins. -/
theorem runs_collide_off_pen :
    let o := Options.offPen 0.25 (-0.25)
    let h := (ofLeaves o .offline [.text "a" "WHITE" .regular, .text "b" "WHITE" .italic] {}).1
    (0 < o.geometry.size ∧ 0 < o.layout.ratio ∧ 0 < o.layout.minGapRatio ∧ 0 < o.emoteSize) ∧
      (∀ c, 0 ≤ (o.fonts.regular.metrics c o.geometry.size).advance) ∧ h.width.isFinite ∧
      (∀ g ∈ h.row.groups, ¬ g.toNode.bounds.isEmpty) ∧
      ¬ h.row.groups.Pairwise Draft.LeftOf := by
  intro o h
  have advance : 0 ≤ o.geometry.size := by decide
  exact ⟨by decide +kernel, fun _ => advance, by decide +kernel, by decide +kernel,
    by decide +kernel⟩

end Heading

end Marquee
