import Marquee.Proofs.Heading.Painted
import Marquee.Proofs.Store.Fingerprint

/-!
# Rows Laid Out Anew

A row can be laid out without a store: every solid is built and every pair of materials
made when it is needed, and pictures are looked up in a table. A store in which everything
was made the same way gives out the same things, so a row over it is the one laid out anew,
and what the store has in the end was made that way again.

Solids are kept under the fingerprint of their parameters, so this takes parameters that
fingerprints tell apart: those of one program, all equal, or any that are finite.

## Main statements

* `Store.Made.geometry_built`, `Store.Made.geometry`, `Store.Made.material` — what a store of
  things so made gives out;
* `Draft.anew_add`, `anew_ofLeaves` — a leaf, and all of a heading, over such a store.
-/

namespace Marquee

open Fetch Font Heading Markup Scene Store

/-! ### Stores of things made for their keys -/

/-- Every solid that a store has was built for its key from parameters of some kind, and
every pair of materials was made for its color. -/
structure Store.Made (fonts : Family) (kind : Extrusion → Prop) (s : Store) : Prop where
  solid : ∀ k g, s.geometries.get? k = some g → ∃ p, kind p ∧ k.params = p.fingerprint ∧
    g = typeset k.text k.style (fonts.select k.style).1 p
  pair : ∀ c m, s.materials.get? c = some m → m = .ofColor c

/-- Fingerprints tell parameters of some kind apart. -/
def Extrusion.Apart (kind : Extrusion → Prop) : Prop :=
  ∀ p q, kind p → kind q → p.fingerprint = q.fingerprint → p = q

/-- Finite parameters are told apart by their fingerprints. -/
theorem Extrusion.apart_finite : Apart IsFinite :=
  fun _ _ finite _ => fingerprint_injective finite

/-- One set of parameters is told apart from no other. -/
theorem Extrusion.apart_eq (p : Extrusion) : Apart (· = p) :=
  fun _ _ hp hq _ => hp.trans hq.symm

namespace Store

variable {fonts : Family} {kind : Extrusion → Prop} {s t : Store}

/-- A new store holds nothing, so everything in it is made for its key. -/
theorem made_start (fonts : Family) (kind : Extrusion → Prop) : Made fonts kind {} :=
  ⟨fun _ _ h => (by cases h), fun _ _ h => (by cases h)⟩

/-- Only solids and materials matter. -/
theorem Made.of_eq (made : s.Made fonts kind) (geometries : t.geometries = s.geometries)
    (materials : t.materials = s.materials) : t.Made fonts kind :=
  ⟨geometries ▸ made.solid, materials ▸ made.pair⟩

/-- After a clearing nothing is left that could be otherwise. -/
theorem made_clear (fonts : Family) (kind : Extrusion → Prop) (s : Store) :
    s.clear.2.2.Made fonts kind :=
  ⟨fun _ _ h => (by cases h), fun _ _ h => (by cases h)⟩

/-- **The solid that a store gives out**, whether it was there or not, was built for its text and
style, from parameters that have the fingerprint of those asked for. -/
theorem Made.geometry_built (made : s.Made fonts kind) {p : Extrusion} (hp : kind p)
    (text : String) (style : Style) (build : Unit → TextGeometry × List Event)
    (hbuild : (build ()).1 = typeset text style (fonts.select style).1 p) :
    (∃ q, kind q ∧ p.fingerprint = q.fingerprint ∧
      (s.geometry (.of text style p) build).1 = typeset text style (fonts.select style).1 q) ∧
      (s.geometry (.of text style p) build).2.2.Made fonts kind := by
  rw [Store.geometry, Shelf.look]
  rcases hget : s.geometries.get? (.of text style p) with _ | g
  · refine ⟨⟨p, hp, rfl, hbuild⟩, fun k g hk => ?_, made.pair⟩
    rw [Shelf.get?_put] at hk
    split at hk
    · next heq =>
      subst heq
      exact ⟨p, hp, rfl, (Option.some.inj hk).symm.trans hbuild⟩
    · exact made.solid k g hk
  · exact ⟨made.solid _ g hget, made.solid, made.pair⟩

/-- Where fingerprints tell parameters apart, it is the solid of its key. -/
theorem Made.geometry (made : s.Made fonts kind) (apart : Extrusion.Apart kind) {p : Extrusion}
    (hp : kind p) (text : String) (style : Style) (build : Unit → TextGeometry × List Event)
    (hbuild : (build ()).1 = typeset text style (fonts.select style).1 p) :
    (s.geometry (.of text style p) build).1 = typeset text style (fonts.select style).1 p ∧
      (s.geometry (.of text style p) build).2.2.Made fonts kind := by
  obtain ⟨⟨q, hq, hparams, hg⟩, hmade⟩ := made.geometry_built hp text style build hbuild
  obtain rfl : p = q := apart p q hp hq hparams
  exact ⟨hg, hmade⟩

/-- The materials that a store gives out are those of the color. -/
theorem Made.material (made : s.Made fonts kind) (c : Color) :
    (s.material c).1 = .ofColor c ∧ (s.material c).2.Made fonts kind := by
  obtain ⟨hgive, hpaired⟩ := Paired.material made.pair c
  exact ⟨hgive, made.solid, hpaired⟩

end Store

namespace Heading

/-! ### Rows without a store -/

/-- The mesh of a run of text, built and made anew. -/
def freshMesh (o : Options) (value color : String) (style : Style) : Mesh :=
  .ofGeometry (Draft.build o (.ofList (Text.core value.toList)) style).1
    (.ofColor (Draft.color color).1)

/-- Where a row reaches after one more leaf. -/
def advance (o : Options) (x : Float32) : Leaf → Float32
  | .text value color style =>
    let text := value.toList
    if (Text.core text).isEmpty then x + Float32.ofNat text.length * o.spacing
    else x + (Draft.gap o (Text.leading text) + (freshMesh o value color style).geometry.width +
      Draft.gap o (Text.trailing text))
  | .emote .. => x + (o.minGap + (Stack.ofOptions o).size + o.minGap)

/-- What a stack shows of a picture, or for want of it. -/
def Stack.show (stack : Stack) : Option Texture → List Node
  | some t => stack.sprites t
  | none => [stack.placeholder]

/-- The group of a leaf in a row that reaches so far. -/
def groupAt (o : Options) (picture? : String → Option Texture) (x : Float32) : Leaf → Group
  | .text value color style =>
    let core := Text.core value.toList
    if core.isEmpty then Draft.group "space" x []
    else Draft.group ("text:" ++ .ofList core) (x + Draft.gap o (Text.leading value.toList))
      [.mesh (freshMesh o value color style)]
  | .emote id _ _ =>
    Draft.group ("emote:" ++ id) (x + o.minGap)
      ((Stack.ofOptions o).show (picture? (o.emotes.urlFor id)))

/-- The groups of some leaves in a row that reaches so far. -/
def groupsFrom (o : Options) (picture? : String → Option Texture) : Float32 → List Leaf → List Group
  | _, [] => []
  | x, leaf :: leaves => groupAt o picture? x leaf :: groupsFrom o picture? (advance o x leaf) leaves

/-- There is one group to each leaf. -/
theorem length_groupsFrom (o : Options) (picture? : String → Option Texture) (x : Float32)
    (leaves : List Leaf) : (groupsFrom o picture? x leaves).length = leaves.length := by
  induction leaves generalizing x with
  | nil => rfl
  | cons leaf leaves ih => rw [groupsFrom, List.length_cons, List.length_cons, ih]

/-- The group of each leaf stands where the leaves before it reach. -/
theorem getElem?_groupsFrom (o : Options) (picture? : String → Option Texture) (x : Float32)
    (leaves : List Leaf) (i : Nat) : (groupsFrom o picture? x leaves)[i]? =
      leaves[i]?.map (groupAt o picture? ((leaves.take i).foldl (advance o) x)) := by
  induction leaves generalizing x i with
  | nil => rfl
  | cons leaf leaves ih =>
    cases i with
    | zero => rfl
    | succ i => exact ih (advance o x leaf) i

/-! ### Rows over a store -/

section Anew

variable {o : Options} {kind : Extrusion → Prop} {d : Draft}

/-- One more leaf over a store of things made for their keys. -/
structure Draft.Anew (o : Options) (kind : Extrusion → Prop) (d : Draft) (leaf : Leaf)
    (d' : Draft) : Prop where
  cursor : d'.cursor = advance o d.cursor leaf
  groups : d'.groups = d.groups ++ [groupAt o d.store.textures.get? d.cursor leaf]
  store : d'.store.Made o.fonts kind
  textures : d'.store.textures.get? = d.store.textures.get?

/-- A run is laid out as it would be over a new store. -/
theorem Draft.anew_run (made : d.store.Made o.fonts kind) (apart : Extrusion.Apart kind)
    (params : kind o.geometry) {value color : String} {style : Style}
    (ink : ¬ (Text.core value.toList).isEmpty) :
    Anew o kind d (.text value color style) (d.run o value.toList color style) := by
  obtain ⟨hsolid, hmade⟩ := made.geometry apart params (.ofList (Text.core value.toList)) style
    (fun _ => build o (.ofList (Text.core value.toList)) style) rfl
  obtain ⟨hpair, hmade⟩ := hmade.material (Draft.color color).1
  refine ⟨?_, ?_, hmade, ?_⟩
  · rw [advance, if_neg ink]
    simp only [run, hsolid]
    rfl
  · rw [groupAt, if_neg ink]
    simp only [run, hsolid, hpair]
    rfl
  · simp only [run, Store.textures_material, Store.textures_geometry]

/-- **One leaf** over a store is laid out as without one. -/
theorem Draft.anew_add (made : d.store.Made o.fonts kind) (apart : Extrusion.Apart kind)
    (params : kind o.geometry) (leaf : Leaf) : Anew o kind d leaf (d.add o leaf) := by
  cases leaf with
  | text value color style =>
    rw [add]
    split
    · next blank =>
      refine ⟨?_, ?_, made, rfl⟩
      · rw [advance, if_pos blank, space]
      · rw [groupAt, if_pos blank, space]
    · next ink => exact anew_run made apart params ink
  | emote id color style =>
    refine ⟨rfl, ?_, made.of_eq rfl rfl, funext fun url => d.store.get?_texture? _ url⟩
    rw [groupAt, ← Store.texture?_fst]
    rfl

/-- **A row over a store** of things made for their keys is the one laid out anew. -/
theorem Draft.anew_foldl (made : d.store.Made o.fonts kind) (apart : Extrusion.Apart kind)
    (params : kind o.geometry) (leaves : List Leaf) :
    (leaves.foldl (add o) d).cursor = leaves.foldl (advance o) d.cursor ∧
      (leaves.foldl (add o) d).groups =
        d.groups ++ groupsFrom o d.store.textures.get? d.cursor leaves ∧
      (leaves.foldl (add o) d).store.Made o.fonts kind := by
  induction leaves generalizing d with
  | nil => exact ⟨rfl, (List.append_nil _).symm, made⟩
  | cons leaf leaves ih =>
    have anew := anew_add made apart params leaf
    obtain ⟨hcursor, hgroups, hmade⟩ := ih anew.store
    refine ⟨?_, ?_, hmade⟩
    · rw [List.foldl_cons, hcursor, anew.cursor, List.foldl_cons]
    · rw [List.foldl_cons, hgroups, anew.groups, anew.cursor, anew.textures, List.append_assoc,
        groupsFrom]
      rfl

/-- **A heading over a store** of things made for their keys is the one laid out anew. -/
theorem anew_ofLeaves {s : Store} (made : s.Made o.fonts kind) (apart : Extrusion.Apart kind)
    (params : kind o.geometry) (loader : Loader) (leaves : List Leaf) :
    (ofLeaves o loader leaves s).1.width = leaves.foldl (advance o) 0 ∧
      (ofLeaves o loader leaves s).1.row.children =
        (groupsFrom o s.textures.get? 0 leaves).map Group.toNode ∧
      (ofLeaves o loader leaves s).2.2.Made o.fonts kind := by
  obtain ⟨hcursor, hgroups, hmade⟩ := Draft.anew_foldl (d := .start s) made apart params leaves
  obtain ⟨hsolids, hmaterials, -⟩ := shelves_issueAll loader (Draft.ofLeaves o leaves s).requests
    (Draft.ofLeaves o leaves s).store
  exact ⟨hcursor, congrArg (List.map Group.toNode) hgroups, hmade.of_eq hsolids hmaterials⟩

/-- The group in a place is that of its leaf, where the leaves before it reach. -/
theorem child?_anew {s : Store} (made : s.Made o.fonts kind) (apart : Extrusion.Apart kind)
    (params : kind o.geometry) (loader : Loader) (leaves : List Leaf) (i : Nat) :
    (ofLeaves o loader leaves s).1.row.child? i =
      leaves[i]?.map (groupAt o s.textures.get? ((leaves.take i).foldl (advance o) 0)) := by
  rw [Group.child?, (anew_ofLeaves made apart params loader leaves).2.1, List.getElem?_map,
    getElem?_groupsFrom]
  cases leaves[i]? <;> rfl

end Anew

end Heading

end Marquee
