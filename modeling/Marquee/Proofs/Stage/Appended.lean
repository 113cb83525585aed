import Marquee.Proofs.Stage.Transparent

/-!
# Rows That Are Continued

A row is laid out from left to right, and what comes later does not look back. The row of some
leaves and more begins with the row of the first ones; the rest is what comes of laying out the
others from where the first ones end. No arithmetic is involved in this: the sums are the same,
in the same order.

The store is threaded through all of it, and the first leaves warm it for the others. Over a
store of things made for their keys this shows nowhere, so the others may be laid out over the
store before the first leaves as well as over the one after them, and where a group stands
depends on no store at all.

## Main statements

* `groupsFrom_append` — a row without a store, continued;
* `continued_of_made` — leaves laid out from a place of the cursor, over a store;
* `layout_append_stable` — all of it for the runs of a program.
-/

namespace Marquee

open Fetch Heading Markup Scene Stage Store

namespace Heading

/-! ### Continued without a store -/

/-- Where the group of a leaf stands, given the cursor before it: a gap behind the cursor, but a
blank text stands at the cursor itself. -/
def standing (o : Options) (x : Float32) : Leaf → Float32
  | .text value _ _ =>
    if (Text.core value.toList).isEmpty then x else x + Draft.gap o (Text.leading value.toList)
  | .emote .. => x + o.minGap

/-- The group of a leaf stands where the leaf does, and is only moved there. -/
theorem transform_groupAt (o : Options) (picture? : String → Option Texture) (x : Float32)
    (leaf : Leaf) : (groupAt o picture? x leaf).transform = .moved ⟨standing o x leaf, 0, 0⟩ := by
  cases leaf with
  | text value color style =>
    rw [groupAt, standing]
    split <;> rfl
  | emote id color style => rfl

/-- More leaves are laid out from where the first ones reach. -/
theorem groupsFrom_append (o : Options) (picture? : String → Option Texture) (x : Float32)
    (p q : List Leaf) : groupsFrom o picture? x (p ++ q) =
      groupsFrom o picture? x p ++ groupsFrom o picture? (p.foldl (advance o) x) q := by
  induction p generalizing x with
  | nil => rfl
  | cons leaf p ih =>
    rw [List.cons_append, groupsFrom, groupsFrom, List.foldl_cons, List.cons_append, ih]

/-! ### Continued over a store -/

/-- Some leaves laid out with the cursor at a given place. -/
def Draft.continued (o : Options) (x : Float32) (leaves : List Leaf) (s : Store) : Draft :=
  leaves.foldl (Draft.add o) { Draft.start s with cursor := x }

section Made

variable {o : Options} {kind : Extrusion → Prop} {s t : Store}

/-- A row that goes on is laid out from where it reaches, as it would be over a new store. -/
theorem continued_of_made (made : s.Made o.fonts kind) (apart : Extrusion.Apart kind)
    (params : kind o.geometry) (x : Float32) (leaves : List Leaf) :
    (Draft.continued o x leaves s).cursor = leaves.foldl (advance o) x ∧
      (Draft.continued o x leaves s).groups = groupsFrom o s.textures.get? x leaves := by
  obtain ⟨hcursor, hgroups, -⟩ :=
    Draft.anew_foldl (d := { Draft.start s with cursor := x }) made apart params leaves
  exact ⟨hcursor, hgroups⟩

/-- **A row over a store, continued** over any store of things made for their keys with the same
pictures. -/
theorem row_append (made : s.Made o.fonts kind) (made' : t.Made o.fonts kind)
    (same : t.textures.get? = s.textures.get?) (apart : Extrusion.Apart kind)
    (params : kind o.geometry) (loader : Loader) (p q : List Leaf) :
    let first := (ofLeaves o loader p s).1
    let whole := (ofLeaves o loader (p ++ q) s).1
    let rest := Draft.continued o first.width q t
    whole.row.children = first.row.children ++ rest.groups.map Group.toNode ∧
      whole.width = rest.cursor := by
  intro first whole rest
  obtain ⟨hwidth, hchildren, -⟩ := anew_ofLeaves made apart params loader p
  obtain ⟨hwidth', hchildren', -⟩ := anew_ofLeaves made apart params loader (p ++ q)
  obtain ⟨hcursor, hgroups⟩ := continued_of_made made' apart params first.width q
  constructor
  · rw [hchildren', hchildren, hgroups, groupsFrom_append, List.map_append, same, hwidth]
  · rw [hwidth', hcursor, List.foldl_append, hwidth]

/-- Where the group in some place of a row stands. -/
def place? (h : Heading) (i : Nat) : Option Space.Transform := (h.row.child? i).map Group.transform

/-- **A leaf stands** where the leaves before it reach. -/
theorem place?_ofLeaves (made : s.Made o.fonts kind) (apart : Extrusion.Apart kind)
    (params : kind o.geometry) (loader : Loader) {leaves : List Leaf} {i : Nat} {leaf : Leaf}
    (hleaf : leaves[i]? = some leaf) : (ofLeaves o loader leaves s).1.place? i =
      some (.moved ⟨standing o ((leaves.take i).foldl (advance o) 0) leaf, 0, 0⟩) := by
  rw [place?, child?_anew made apart params loader leaves i, hleaf, Option.map_some,
    Option.map_some, transform_groupAt]

/-- **Where a group stands** is settled by the leaves up to it. -/
theorem place?_congr (made : s.Made o.fonts kind) (made' : t.Made o.fonts kind)
    (apart : Extrusion.Apart kind) (params : kind o.geometry) (loader loader' : Loader)
    {p q : List Leaf} {i : Nat} (same : p.take (i + 1) = q.take (i + 1)) (inside : i < q.length) :
    (ofLeaves o loader p s).1.place? i = (ofLeaves o loader' q t).1.place? i := by
  have before : p.take i = q.take i := by
    have htake := congrArg (List.take i) same
    rwa [List.take_take, List.take_take, Nat.min_eq_left i.le_succ] at htake
  have hleaf : p[i]? = q[i]? := by
    have hget := congrArg (fun l : List Leaf => l[i]?) same
    rwa [List.getElem?_take_of_lt i.lt_succ_self, List.getElem?_take_of_lt i.lt_succ_self] at hget
  have hq : q[i]? = some q[i] := List.getElem?_eq_getElem inside
  rw [place?_ofLeaves made apart params loader (hleaf.trans hq),
    place?_ofLeaves made' apart params loader' hq, before]

end Made

end Heading

/-! ### All runs -/

section Run

variable {acts acts' : List Act} {w w' : Stage} {o : Options}

/-- **Layout is stable under appending.** Over a store that a program can reach, with one family
and finite measures, the row of some leaves and more begins with the row of the first ones. The
rest of it, and its width, are what comes of laying out the others from the width of the first
row, whether over the store before the first leaves or over the one that they leave behind.

Every group stands where its leaf does, given the width of the row of the leaves before it; and
over any other such store, with any other leaves after it, it stands in the same place. -/
theorem layout_append_stable (run : Run .start acts w)
    (shares : ∀ a ∈ acts, a.Shares o.fonts Extrusion.IsFinite) (finite : o.geometry.IsFinite)
    (loader : Loader) (p q : List Leaf) :
    let first := ofLeaves o loader p w.store
    let whole := (ofLeaves o loader (p ++ q) w.store).1
    whole.row.children.take p.length = first.1.row.children ∧
    (∀ s ∈ [w.store, first.2.2],
      let rest := Draft.continued o first.1.width q s
      whole.row.children.drop p.length = rest.groups.map Group.toNode ∧
        whole.width = rest.cursor) ∧
    (∀ (i : Nat) leaf, (p ++ q)[i]? = some leaf →
      let reach := (ofLeaves o loader ((p ++ q).take i) w.store).1.width
      whole.place? i = some (.moved ⟨standing o reach leaf, 0, 0⟩)) ∧
    ∀ i < (p ++ q).length, ∀ acts' w', Run .start acts' w' →
      (∀ a ∈ acts', a.Shares o.fonts Extrusion.IsFinite) → ∀ loader' leaves',
        leaves'.take (i + 1) = (p ++ q).take (i + 1) →
          (ofLeaves o loader' leaves' w'.store).1.place? i = whole.place? i := by
  have apart := Extrusion.apart_finite
  have reached {acts w} (run : Run .start acts w)
      (shares : ∀ a ∈ acts, a.Shares o.fonts Extrusion.IsFinite) :
      w.store.Made o.fonts Extrusion.IsFinite :=
    run.made shares (made_start o.fonts _)
  have made := reached run shares
  intro first whole
  have hlength : first.1.row.children.length = p.length := length_children rfl
  refine ⟨?_, fun s hs => ?_, fun i leaf hleaf => ?_, fun i hi acts' w' run' shares' => ?_⟩
  · obtain ⟨hchildren, -⟩ := row_append made made rfl apart finite loader p q
    rw [hchildren, ← hlength, List.take_left]
  · have hmade : s.Made o.fonts Extrusion.IsFinite ∧ s.textures.get? = w.store.textures.get? := by
      rcases List.mem_pair.1 hs with rfl | rfl
      · exact ⟨made, rfl⟩
      · exact ⟨(anew_ofLeaves made apart finite loader p).2.2,
          funext (textures_ofLeaves o loader p w.store)⟩
    obtain ⟨hchildren, hwidth⟩ := row_append made hmade.1 hmade.2 apart finite loader p q
    intro rest
    rw [hchildren, ← hlength, List.drop_left]
    exact ⟨rfl, hwidth⟩
  · intro reach
    have hreach := (anew_ofLeaves made apart finite loader ((p ++ q).take i)).1
    rw [place?_ofLeaves made apart finite loader hleaf, ← hreach]
  · intro loader' leaves' same
    exact place?_congr (reached run' shares') made apart finite loader' loader same hi

/-- A second heading over a store that has the solid of its first run already, but not that of
its last one. -/
theorem layout_append_warm :
    let p : List Leaf := [.text "a" "RED" .regular]
    let q : List Leaf := [.emote "1" "RED" .bold, .text " b" "RED" .bold]
    ∃ w, Run .start [.set .inkless .offline [.text "a" "WHITE" .regular]] w ∧
      w.store.geometries.size = 1 ∧
      let first := (ofLeaves .inkless .offline p w.store).1
      let whole := (ofLeaves .inkless .offline (p ++ q) w.store).1
      whole.row.children.take 1 = first.row.children ∧
        whole.width = (Draft.continued .inkless first.width q w.store).cursor := by
  intro p q
  have shares : (Act.set .inkless .offline [.text "a" "WHITE" .regular]).Shares
      Options.inkless.fonts Extrusion.IsFinite := by
    intro o leaves hsheet
    cases hsheet
    exact ⟨rfl, rfl, rfl, rfl, rfl, rfl⟩
  have run : Run .start [.set .inkless .offline [.text "a" "WHITE" .regular]] _ :=
    .cons (.set _ _ _) .nil
  obtain ⟨hfirst, hrest, -⟩ := layout_append_stable run (List.forall_mem_singleton.2 shares)
    ⟨rfl, rfl, rfl, rfl, rfl⟩ .offline p q
  exact ⟨_, run, rfl, hfirst, (hrest _ List.mem_cons_self).2⟩

end Run

end Marquee
