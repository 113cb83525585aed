import Marquee.Proofs.Heading.Passes

/-!
# Colors Do Not Move Anything

The color of a leaf decides which materials its mesh gets and what is said about names that are
not known, and it decides about nothing else. Two rows of leaves that differ in their colors can
be laid out in step: cursor, groups, requests, solids and pictures agree all the way, and so do
the counts of how often solids and pictures were looked for. Only the shelf of materials goes
its own way, and nothing but meshes takes from it.

Bounds are those of solids and sprites, so the row is moved to its center by the same amount.

## Main statements

* `Node.bounds_unpainted` — a scene measures the same without its materials;
* `Draft.Repainted.add`, `Draft.Repainted.row` — in step through one leaf, and the finished rows;
* `color_moves_nothing` — what a heading does not owe to the colors of its leaves.
-/

namespace Marquee

open Fetch Markup Scene Space Store

/-! ### Scenes without materials -/

namespace Scene

mutual

/-- A node with the same materials for all text in it. -/
def Node.unpainted : Node → Node
  | .group name t children => .group name t (unpaintedAll children)
  | .mesh m => .mesh { m with materials := .ofColor .white }
  | .sprite s => .sprite s

/-- Some nodes with the same materials for all text in them. -/
def unpaintedAll : List Node → List Node
  | [] => []
  | n :: ns => n.unpainted :: unpaintedAll ns

end

/-- Nodes are unpainted one by one. -/
theorem unpaintedAll_eq_map (ns : List Node) : unpaintedAll ns = ns.map Node.unpainted := by
  induction ns with
  | nil => rfl
  | cons n ns ih => rw [unpaintedAll, ih, List.map_cons]

mutual

/-- Materials have no extent. -/
theorem Node.localBounds_unpainted : ∀ n : Node, n.unpainted.localBounds = n.localBounds
  | .group name t children => by
    rw [Node.unpainted, Node.localBounds, Node.localBounds, Node.union_unpainted]
  | .mesh m => rfl
  | .sprite s => rfl

/-- Colors do not matter to the box around some nodes. -/
theorem Node.union_unpainted : ∀ (ns : List Node) (b : Box),
    Node.union b (unpaintedAll ns) = Node.union b ns
  | [], b => rfl
  | n :: ns, b => by
    have htransform : n.unpainted.transform = n.transform := by
      cases n <;> rfl
    rw [unpaintedAll, Node.union, Node.union, Node.union_unpainted ns, htransform,
      Node.localBounds_unpainted n]

end

/-- A group with the same materials for all text in it. -/
def Group.unpainted (g : Group) : Group := { g with children := unpaintedAll g.children }

/-- **The bounds of a group** are those of the group without materials. -/
theorem Group.localBounds_unpainted (g : Group) : g.unpainted.localBounds = g.localBounds :=
  Node.union_unpainted g.children .empty

end Scene

/-! ### Stores that differ in their materials -/

/-- Two stores that have the same in all but materials: the same solids and pictures, as often
looked for, and the same loads. -/
structure Store.Repainted (s t : Store) : Prop where
  geometries : s.geometries = t.geometries
  textures : s.textures = t.textures
  ledger : s.ledger = t.ledger

namespace Store

variable {s t : Store}

/-- A store is a repainting of itself. -/
theorem Repainted.refl (s : Store) : s.Repainted s := ⟨rfl, rfl, rfl⟩

/-- Two such stores give out and keep the same solid. -/
theorem Repainted.geometry (same : s.Repainted t) (k : SolidKey)
    (build : Unit → TextGeometry × List Event) :
    (s.geometry k build).1 = (t.geometry k build).1 ∧
      (s.geometry k build).2.2.Repainted (t.geometry k build).2.2 := by
  obtain ⟨hgeometries, htextures, hledger⟩ := same
  rw [Store.geometry, Store.geometry, hgeometries]
  rcases t.geometries.look k with ⟨_ | g, shelf⟩
  · exact ⟨rfl, rfl, htextures, hledger⟩
  · exact ⟨rfl, rfl, htextures, hledger⟩

/-- Whatever materials two such stores are asked for, they differ in nothing else. -/
theorem Repainted.material (same : s.Repainted t) (c c' : Color) :
    (s.material c).2.Repainted (t.material c').2 :=
  ⟨same.geometries, same.textures, same.ledger⟩

/-- Two such stores have the same pictures. -/
theorem Repainted.texture? (same : s.Repainted t) (url : String) :
    (s.texture? url).1 = (t.texture? url).1 ∧
      (s.texture? url).2.Repainted (t.texture? url).2 := by
  obtain ⟨hgeometries, htextures, hledger⟩ := same
  rw [Store.texture?, Store.texture?, htextures]
  exact ⟨rfl, hgeometries, rfl, hledger⟩

end Store

namespace Heading

/-! ### Rows laid out in step -/

/-- Two leaves that differ in their color at most, known or not. -/
inductive Recolored : Leaf → Leaf → Prop
  | text (value : String) (style : Style) (color color' : String) :
      Recolored (.text value color style) (.text value color' style)
  | emote (id : String) (style : Style) (color color' : String) :
      Recolored (.emote id color style) (.emote id color' style)

/-- Two drafts that differ in the materials of their meshes, over stores that differ in theirs. -/
structure Draft.Repainted (d e : Draft) : Prop where
  cursor : d.cursor = e.cursor
  groups : d.groups.map Group.unpainted = e.groups.map Group.unpainted
  requests : d.requests = e.requests
  store : d.store.Repainted e.store

namespace Draft

variable {d e : Draft} {o : Options}

/-- **One more group** on either side. -/
theorem Repainted.snoc (same : d.Repainted e) {d' e' : Draft} {g h : Group}
    (groups : d'.groups = d.groups ++ [g]) (groups' : e'.groups = e.groups ++ [h])
    (unpainted : g.unpainted = h.unpainted) (cursor : d'.cursor = e'.cursor)
    (requests : d'.requests = e'.requests) (store : d'.store.Repainted e'.store) :
    d'.Repainted e' := by
  refine ⟨cursor, ?_, requests, store⟩
  rw [groups, groups', List.map_append, List.map_append, same.groups, List.map_singleton,
    List.map_singleton, unpainted]

/-- A blank text has no color at all. -/
theorem Repainted.space (same : d.Repainted e) (text : List Char) :
    (d.space o text).Repainted (e.space o text) := by
  refine same.snoc rfl rfl ?_ ?_ same.requests same.store
  · rw [same.cursor]
  · simp only [Draft.space, same.cursor]

/-- A run of text takes the same solid, and materials that may differ. -/
theorem Repainted.run (same : d.Repainted e) (text : List Char) (color color' : String)
    (style : Style) : (d.run o text color style).Repainted (e.run o text color' style) := by
  let core := String.ofList (Text.core text)
  let solid (d : Draft) := d.store.geometry (.of core style o.geometry) fun _ => build o core style
  obtain ⟨hsolid, hstore⟩ : (solid d).1 = (solid e).1 ∧ (solid d).2.2.Repainted (solid e).2.2 :=
    same.store.geometry _ _
  have hgroups (d : Draft) (color : String) : ∃ materials, (d.run o text color style).groups =
      d.groups ++ [group ("text:" ++ core) (d.cursor + gap o (Text.leading text))
        [.mesh (.ofGeometry (solid d).1 materials)]] := ⟨_, rfl⟩
  have hcursor (d : Draft) (color : String) : (d.run o text color style).cursor = d.cursor +
      (gap o (Text.leading text) + (solid d).1.width + gap o (Text.trailing text)) := rfl
  obtain ⟨materials, hd⟩ := hgroups d color
  obtain ⟨materials', he⟩ := hgroups e color'
  refine same.snoc hd he ?_ ?_ same.requests (hstore.material _ _)
  · rw [same.cursor, hsolid]
    rfl
  · rw [hcursor, hcursor, same.cursor, hsolid]

/-- An emote shows what the store has, and no color. -/
theorem Repainted.emote (same : d.Repainted e) (id : String) :
    (d.emote o id).Repainted (e.emote o id) := by
  obtain ⟨hfound, hstore⟩ := same.store.texture? (o.emotes.urlFor id)
  have hlength : d.groups.length = e.groups.length := by
    simpa using congrArg List.length same.groups
  refine ⟨?_, ?_, ?_, hstore⟩
  · simp only [Draft.emote, same.cursor]
  · simp only [Draft.emote, same.cursor, hfound, List.map_append, same.groups]
  · simp only [Draft.emote, hfound, hlength, same.requests]

/-- **One leaf** in two colors. -/
theorem Repainted.add (same : d.Repainted e) {leaf leaf' : Leaf}
    (recolored : Recolored leaf leaf') : (d.add o leaf).Repainted (e.add o leaf') := by
  cases recolored with
  | text value style color color' =>
    rw [Draft.add, Draft.add]
    split
    · exact same.space _
    · exact same.run _ color color' style
  | emote id style color color' => exact same.emote id

/-- **All leaves** in two colors each, over stores that differ in their materials. -/
theorem Repainted.foldl (same : d.Repainted e) {leaves leaves' : List Leaf}
    (recolored : List.Forall₂ Recolored leaves leaves') :
    (leaves.foldl (Draft.add o) d).Repainted (leaves'.foldl (Draft.add o) e) := by
  induction recolored generalizing d e with
  | nil => exact same
  | cons leaf _ ih => exact ih (same.add leaf)

/-- Rows of repainted drafts differ in their colors only. -/
theorem Repainted.row (same : d.Repainted e) : d.row.transform = e.row.transform ∧
    unpaintedAll d.row.children = unpaintedAll e.row.children := by
  have hchildren (d : Draft) :
      unpaintedAll d.row.children = (d.groups.map Group.unpainted).map Group.toNode := by
    have hrow : d.row.children = d.groups.map Group.toNode := rfl
    rw [hrow, unpaintedAll_eq_map, List.map_map, List.map_map]
    rfl
  have heq : unpaintedAll d.row.children = unpaintedAll e.row.children := by
    rw [hchildren, hchildren, same.groups]
  have hbounds : d.row.localBounds = e.row.localBounds := by
    rw [← d.row.localBounds_unpainted, ← e.row.localBounds_unpainted]
    exact congrArg (Node.union .empty) heq
  have htransform (d : Draft) :
      d.row.transform = .moved (d.row.localBounds.center.scale (-1)) := rfl
  exact ⟨by rw [htransform, htransform, hbounds], heq⟩

end Draft

/-! ### Headings set in step -/

/-- Two headings that differ in the materials of their meshes at most. -/
structure Repainted (g h : Heading) : Prop where
  pivot : g.pivot = h.pivot
  width : g.width = h.width
  stack : g.stack = h.stack
  transform : g.row.transform = h.row.transform
  children : unpaintedAll g.row.children = unpaintedAll h.row.children
  /-- The same loads for the same addresses, emotes and places. -/
  loads : g.loads = h.loads

/-- Issuing loads does not look at materials. -/
theorem repainted_issueAll (loader : Loader) (rs : List Request) {s t : Store}
    (same : s.Repainted t) :
    (issueAll loader rs s).1 = (issueAll loader rs t).1 ∧
      (issueAll loader rs s).2.2.Repainted (issueAll loader rs t).2.2 := by
  obtain ⟨hsolids, -, hpictures⟩ := shelves_issueAll loader rs s
  obtain ⟨hsolids', -, hpictures'⟩ := shelves_issueAll loader rs t
  have hnext : s.nextLoad = t.nextLoad := congrArg Ledger.nextLoad same.ledger
  have hgeneration : s.generation = t.generation := congrArg Ledger.generation same.ledger
  refine ⟨?_, ?_, ?_, ?_⟩
  · rw [issueAll_loads, issueAll_loads, hnext, hgeneration]
  · rw [hsolids, hsolids', same.geometries]
  · rw [hpictures, hpictures', same.textures]
  · rw [ledger_issueAll, ledger_issueAll, same.ledger]

/-- **Colors move nothing.** Leaves that differ in their color names only, known or not, are set
over one store, or over two that differ in their materials. The headings have the same width,
pivot, transform of the row and loads, and the same children of the row but for the materials
of text. The stores that are left differ in their materials again: they have the same solids and
pictures, looked for as often, and the same account of loads. -/
theorem color_moves_nothing (o : Options) (loader : Loader) {leaves leaves' : List Leaf}
    (recolored : List.Forall₂ Recolored leaves leaves') {s t : Store} (same : s.Repainted t) :
    (ofLeaves o loader leaves s).1.Repainted (ofLeaves o loader leaves' t).1 ∧
      (ofLeaves o loader leaves s).2.2.Repainted (ofLeaves o loader leaves' t).2.2 := by
  have start : (Draft.start s).Repainted (.start t) := ⟨rfl, rfl, rfl, same⟩
  have drafts : (Draft.ofLeaves o leaves s).Repainted (.ofLeaves o leaves' t) :=
    start.foldl recolored
  obtain ⟨htransform, hchildren⟩ := drafts.row
  obtain ⟨hloads, hstore⟩ :=
    repainted_issueAll loader (Draft.ofLeaves o leaves s).requests drafts.store
  rw [ofLeaves, ofLeaves, ← drafts.requests]
  exact ⟨⟨rfl, drafts.cursor, rfl, htransform, hchildren, hloads⟩, hstore⟩

/-- A heading in two colorings, one of them unknown, and a second one over the two stores that
the first one leaves. -/
theorem second_heading_moves_nothing :
    let o : Options :=
      { fonts := { regular := ⟨"square", fun _ size => ⟨size, 0, 0, size, size⟩⟩ } }
    let s := (ofLeaves o .offline [.text "a" "RED" .bold, .emote "1" "RED" .bold] {}).2.2
    let t := (ofLeaves o .offline [.text "a" "MUD" .bold, .emote "1" "CYAN" .bold] {}).2.2
    s.Repainted t ∧ (ofLeaves o .offline [.text " a" "CYAN" .bold] s).1.Repainted
      (ofLeaves o .offline [.text " a" "" .bold] t).1 := by
  intro o s t
  have same : s.Repainted t := (color_moves_nothing o .offline
    (.cons (.text "a" .bold "RED" "MUD") (.cons (.emote "1" .bold "RED" "CYAN") .nil)) (.refl {})).2
  exact ⟨same, (color_moves_nothing o .offline (.cons (.text " a" .bold "CYAN" "") .nil) same).1⟩

end Heading

end Marquee
