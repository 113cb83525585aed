import Marquee.Proofs.Heading.Row
import Marquee.Proofs.Number.Amount
import Marquee.Proofs.Space.Extent

/-!
# Offsets Never Go Back

The groups of a row stand from left to right in the order of their leaves, and the row reaches
at least as far as the last of them. A group is placed by one sum and the cursor moves on by
another, each rounded on its own: a text stands at `cursor + lead` and moves the cursor to
`cursor + (lead + width + trail)`. Rounding keeps the order, so the second sum is no less than
the first.

What it takes is that no measure leads back. Blanks, gaps and emotes are as wide as the options
say. A text is as wide as its solid, and the box of a solid is empty or its corners are in
order, also where a bevel turns it inside out; only an undefined width is neither.

## Main statements

* `zero_le_width` — a width that is defined is not negative;
* `Draft.Ahead.add` — the cursor is ahead of all groups, leaf by leaf;
* `offsets_ascend` — the offsets of a row are in order, up to its width.
-/

namespace Marquee

open Fetch Markup Number Scene Space

/-! ### Measures that do not lead back -/

/-- **The width of a solid** is not negative, unless it is undefined. -/
theorem Scene.TextGeometry.zero_le_width {g : TextGeometry} (defined : g.width.isNaN = false) :
    0 ≤ g.width := by
  rw [width, Box.size] at defined ⊢
  split at defined
  · next empty =>
    rw [if_pos empty]
    decide
  · next order =>
    rw [if_neg order]
    exact zero_le_sub (fun hlt => order ((Space.isEmpty_iff _).2 ⟨.x, hlt⟩)) defined

/-- The greater of two numbers that are not negative is not negative. -/
theorem Space.zero_le_greater {x y : Float32} (hx : 0 ≤ x) (hy : 0 ≤ y) : 0 ≤ greater x y := by
  unfold greater
  split_ifs <;> assumption

namespace Heading

/-- Options whose measures do not lead back. -/
structure Options.Forward (o : Options) : Prop where
  /-- Without blanks there is no width, however wide a blank is. -/
  finite : o.spacing.isFinite
  spacing : 0 ≤ o.spacing
  minGap : 0 ≤ o.minGap
  emoteSize : 0 ≤ o.emoteSize

/-- The length of a text is a machine word, as that of all texts in memory is. -/
def Countable : Leaf → Prop
  | .text value _ _ => value.length < 2 ^ 64
  | .emote .. => True

/-- The widths of the solids in a group are defined. -/
def Measured (g : Group) : Prop := ∀ m ∈ g.meshes, m.geometry.width.isNaN = false

instance (g : Group) : Decidable (Measured g) :=
  inferInstanceAs (Decidable (∀ m ∈ g.meshes, m.geometry.width.isNaN = false))

/-- Where a group stands along the line. -/
def offset (g : Group) : Float32 := g.transform.position.x

variable {o : Options} {d : Draft}

/-- Any number of blanks is not less than none. -/
theorem Options.Forward.blanks (forward : o.Forward) {n : ℕ} (word : n < 2 ^ 64) :
    0 ≤ Float32.ofNat n * o.spacing :=
  zero_le_mul (ofNat_word word).1 forward.finite (ofNat_word word).2 forward.spacing

/-- A gap is not negative. -/
theorem Options.Forward.gap (forward : o.Forward) {cs : List Char} (word : cs.length < 2 ^ 64) :
    0 ≤ Draft.gap o cs :=
  zero_le_greater (forward.blanks word) forward.minGap

/-! ### The cursor is ahead -/

namespace Draft

/-- The groups of a draft stand in order, and the cursor is past the last of them. -/
structure Ahead (d : Draft) : Prop where
  zero_le : 0 ≤ d.cursor
  ordered : (d.groups.map offset).Pairwise (· ≤ ·)
  behind : ∀ g ∈ d.groups, 0 ≤ offset g ∧ offset g ≤ d.cursor

/-- A draft without groups leads nowhere, so not back. -/
theorem ahead_start (s : Store) : Ahead (start s) :=
  ⟨(by decide : (0 : Float32) ≤ 0), .nil, fun _ hg => by cases hg⟩

/-- **One more group.** It is enough that it stands between the cursor before and after. -/
theorem Ahead.snoc (ahead : Ahead d) {d' : Draft} {g : Group}
    (groups : d'.groups = d.groups ++ [g]) (placed : d.cursor ≤ offset g)
    (zero_le : 0 ≤ offset g) (passed : offset g ≤ d'.cursor) (zero_le' : 0 ≤ d'.cursor) :
    Ahead d' := by
  have past : ∀ f ∈ d.groups, offset f ≤ offset g := fun f hf =>
    le_trans_of_nonneg (ahead.behind f hf).1 ahead.zero_le zero_le (ahead.behind f hf).2 placed
  refine ⟨zero_le', ?_, fun f hf => ?_⟩
  · rw [groups, List.map_append, List.map_singleton, List.pairwise_append]
    refine ⟨ahead.ordered, List.pairwise_singleton .., fun x hx y hy => ?_⟩
    obtain ⟨f, hf, rfl⟩ := List.mem_map.1 hx
    rw [List.mem_singleton.1 hy]
    exact past f hf
  · rw [groups, List.mem_append, List.mem_singleton] at hf
    rcases hf with hf | rfl
    · have hzero := (ahead.behind f hf).1
      exact ⟨hzero, le_trans_of_nonneg hzero zero_le zero_le' (past f hf) passed⟩
    · exact ⟨zero_le, passed⟩

/-- A blank text stands at the cursor. -/
theorem Ahead.space (ahead : Ahead d) (forward : o.Forward) {text : List Char}
    (word : text.length < 2 ^ 64) : Ahead (d.space o text) := by
  have hblanks := forward.blanks word
  exact ahead.snoc rfl (le_refl_of_nonneg ahead.zero_le) ahead.zero_le
    (le_add ahead.zero_le hblanks) (zero_le_add ahead.zero_le hblanks)

/-- What stands a gap behind the cursor, and moves it past the gap and more. -/
theorem Ahead.gapped (ahead : Ahead d) {d' : Draft} {g : Group} {lead width trail : Float32}
    (groups : d'.groups = d.groups ++ [g]) (placed : offset g = d.cursor + lead)
    (passed : d'.cursor = d.cursor + (lead + width + trail))
    (hlead : 0 ≤ lead) (hwidth : 0 ≤ width) (htrail : 0 ≤ trail) : Ahead d' := by
  have hmore := zero_le_add hlead hwidth
  have hsum := zero_le_add hmore htrail
  have hle : lead ≤ lead + width + trail :=
    le_trans_of_nonneg hlead hmore hsum (le_add hlead hwidth) (le_add hmore htrail)
  have hplaced := zero_le_add ahead.zero_le hlead
  refine ahead.snoc groups ?_ (placed ▸ hplaced) ?_ ?_
  · rw [placed]
    exact le_add ahead.zero_le hlead
  · rw [placed, passed]
    exact add_le_add_of_le ahead.zero_le hlead hsum hle
  · rw [passed]
    exact zero_le_add ahead.zero_le hsum

/-- An emote does not lead back. -/
theorem Ahead.emote (ahead : Ahead d) (forward : o.Forward) (id : String) :
    Ahead (d.emote o id) :=
  ahead.gapped rfl rfl rfl forward.minGap forward.emoteSize forward.minGap

/-- A run of text is placed and passed by the gaps on its sides and the width of its solid. -/
theorem exists_run (d : Draft) (o : Options) (text : List Char) (color : String) (style : Style) :
    ∃ geometry materials,
      (d.run o text color style).cursor =
        d.cursor + (gap o (Text.leading text) + geometry.width + gap o (Text.trailing text)) ∧
      (d.run o text color style).groups = d.groups ++
        [group ("text:" ++ .ofList (Text.core text)) (d.cursor + gap o (Text.leading text))
          [.mesh (.ofGeometry geometry materials)]] :=
  ⟨_, _, rfl, rfl⟩

/-- A run does not lead back, if its width is measured. -/
theorem Ahead.run (ahead : Ahead d) (forward : o.Forward) {text : List Char}
    (word : text.length < 2 ^ 64) (color : String) (style : Style)
    (measured : ∀ g ∈ (d.run o text color style).groups, Measured g) :
    Ahead (d.run o text color style) := by
  have hleading : (Text.leading text).length ≤ text.length :=
    (List.takeWhile_prefix _).length_le
  have htrailing : (Text.trailing text).length ≤ text.length := by
    rw [Text.trailing, List.length_reverse]
    exact (List.takeWhile_prefix _).length_le.trans_eq text.length_reverse
  obtain ⟨geometry, materials, hcursor, hgroups⟩ := exists_run d o text color style
  rw [hgroups] at measured
  have hmeasured := measured _ (List.mem_append_right _ List.mem_cons_self) _ List.mem_cons_self
  exact ahead.gapped hgroups rfl hcursor (forward.gap (hleading.trans_lt word))
    (TextGeometry.zero_le_width hmeasured) (forward.gap (htrailing.trans_lt word))

/-- **One more leaf.** -/
theorem Ahead.add (ahead : Ahead d) (forward : o.Forward) {leaf : Leaf}
    (countable : Countable leaf) (measured : ∀ g ∈ (d.add o leaf).groups, Measured g) :
    Ahead (d.add o leaf) := by
  cases leaf with
  | text value color style =>
    rw [Draft.add] at measured ⊢
    split at measured
    · next blank =>
      rw [if_pos blank]
      exact ahead.space forward countable
    · next ink =>
      rw [if_neg ink]
      exact ahead.run forward countable color style measured
  | emote id color style => exact ahead.emote forward id

/-- A leaf adds one group, behind the others. -/
theorem exists_groups_add (d : Draft) (o : Options) (leaf : Leaf) :
    ∃ g, (d.add o leaf).groups = d.groups ++ [g] := by
  cases leaf with
  | text value color style =>
    rw [Draft.add]
    split
    · exact ⟨_, rfl⟩
    · exact ⟨_, rfl⟩
  | emote id color style => exact ⟨_, rfl⟩

/-- **The cursor is ahead** of all groups of a row. -/
theorem ahead_ofLeaves (forward : o.Forward) (s : Store) {leaves : List Leaf}
    (countable : ∀ leaf ∈ leaves, Countable leaf)
    (measured : ∀ g ∈ (ofLeaves o leaves s).groups, Measured g) :
    Ahead (ofLeaves o leaves s) := by
  refine ofLeaves_induction (P := fun leaves d => (∀ leaf ∈ leaves, Countable leaf) →
    (∀ g ∈ d.groups, Measured g) → Ahead d) (fun _ _ => ahead_start s)
    (fun leaves leaf ih countable measured => ?_) leaves countable measured
  obtain ⟨g, hgroups⟩ := exists_groups_add (ofLeaves o leaves s) o leaf
  have ahead := ih (fun l hl => countable l (List.mem_append_left _ hl))
    fun f hf => measured f (hgroups ▸ List.mem_append_left [g] hf)
  exact ahead.add forward (countable leaf (List.mem_append_right _ List.mem_cons_self)) measured

/-- The groups of a finished row. -/
theorem groups_row (d : Draft) : d.row.groups = d.groups := by
  have hchildren : d.row.children = d.groups.map Group.toNode := rfl
  rw [Group.groups, hchildren, List.filterMap_map]
  exact List.filterMap_some

end Draft

/-- **Offsets never go back.** With options whose measures do not lead back, and over any store,
a row has one group for every leaf, the offsets of these are in order, and none of them exceeds
the width of the row, which is not negative. Sums that are too large for single precision are
infinite, and are in order as well. A row in which the width of a text is undefined is left out. -/
theorem offsets_ascend {o : Options} {leaves : List Leaf} (forward : o.Forward)
    (countable : ∀ leaf ∈ leaves, Countable leaf) (loader : Loader) (s : Store)
    (measured : ∀ g ∈ (ofLeaves o loader leaves s).1.row.groups, Measured g) :
    let h := (ofLeaves o loader leaves s).1
    let xs := h.row.groups.map offset
    xs.length = leaves.length ∧ xs.Pairwise (· ≤ ·) ∧ (∀ x ∈ xs, x ≤ h.width) ∧ 0 ≤ h.width := by
  intro h xs
  have hgroups : h.row.groups = (Draft.ofLeaves o leaves s).groups := Draft.groups_row _
  rw [hgroups] at measured
  have ahead := Draft.ahead_ofLeaves forward s countable measured
  refine ⟨?_, ?_, fun x hx => ?_, ahead.zero_le⟩
  · rw [List.length_map, hgroups]
    exact (Draft.laid_ofLeaves o leaves s).length
  · have ordered := ahead.ordered
    rwa [← hgroups] at ordered
  · obtain ⟨g, hg, rfl⟩ := List.mem_map.1 hx
    exact (ahead.behind g (hgroups ▸ hg)).2

/-- A bevel with a negative offset turns the solids of these options inside out. -/
def Options.insideOut : Options where
  fonts := { regular := ⟨"square", fun _ size => ⟨size, 0, 0, size, size⟩⟩ }
  geometry := { beveled := true, bevelOffset := -100 }

/-- Solids that are turned inside out have no width, and do not lead back. -/
theorem offsets_ascend_inside_out :
    let leaves : List Leaf := [.text " a  " "WHITE" .regular, .emote "1" "WHITE" .bold,
      .text "  " "WHITE" .regular, .emote "2" "WHITE" .regular]
    let h := (ofLeaves .insideOut .offline leaves {}).1
    let xs := h.row.groups.map offset
    (∀ g ∈ h.row.groups, ∀ m ∈ g.meshes, m.geometry.bounds.isEmpty) ∧
      xs.length = 4 ∧ xs.Pairwise (· ≤ ·) ∧ (∀ x ∈ xs, x ≤ h.width) ∧ 0 ≤ h.width := by
  intro leaves h xs
  refine ⟨by decide +kernel, offsets_ascend ?_ ?_ .offline {} ?_⟩
  · exact ⟨by decide +kernel, by decide +kernel, by decide +kernel, by decide +kernel⟩
  · simp only [leaves, List.forall_mem_cons, Countable]
    exact ⟨by decide, trivial, by decide, trivial, fun _ h => by cases h⟩
  · decide +kernel

end Heading

end Marquee
