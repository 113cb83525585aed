import Marquee.Proofs.Heading.Fresh

/-!
# Rows over a Shared Store

Headings with several parameters may share a store. A solid is kept under the fingerprint of its
parameters, so a heading is given the solids of all parameters that share a fingerprint with
its own: they agree with them, but for numbers that are not finite in either.

Whose solid it is, among those, depends on who came first.

## Main statements

* `Draft.served_ofLeaves` — from which parameters the solids in a row were built;
* `made_ofLeaves` — a store of things made for their keys stays one;
* `solid_again` — a text that is set again gets the solid of the first time.
-/

namespace Marquee

open Fetch Font Markup Scene Store

/-- What a store gave out under a key it gives out again, as long as its solids stay. -/
theorem Store.geometry_again {s t : Store} {k : SolidKey}
    {build : Unit → TextGeometry × List Event}
    (geometries : t.geometries = (s.geometry k build).2.2.geometries)
    (build' : Unit → TextGeometry × List Event) :
    (t.geometry k build').1 = (s.geometry k build).1 := by
  have hstored : t.geometries.get? k = some (s.geometry k build).1 := by
    rw [geometries, Store.geometry, Shelf.look]
    rcases hget : s.geometries.get? k with _ | g
    · exact (Shelf.get?_put _ _ _ _).trans (if_pos rfl)
    · exact hget
  rw [Store.geometry, Shelf.look, hstored]

namespace Heading

/-- The group of a text that is not blank has a solid of that text, built from parameters of
some kind that agree with those of a heading but for numbers that are not finite. -/
def Serves (o : Options) (kind : Extrusion → Prop) (leaf : Leaf) (g : Group) : Prop :=
  ∀ value color style, leaf = .text value color style → Text.core value.toList ≠ [] →
    ∃ m p, g.children = [.mesh m] ∧ kind p ∧ p.Alike o.geometry ∧
      m.geometry = typeset (.ofList (Text.core value.toList)) style (o.fonts.select style).1 p

/-- A row whose groups serve their leaves, over a store of things made for their keys. -/
structure Draft.Served (o : Options) (kind : Extrusion → Prop) (leaves : List Leaf)
    (d : Draft) : Prop where
  groups : List.Forall₂ (Serves o kind) leaves d.groups
  store : d.store.Made o.fonts kind

variable {o : Options} {kind : Extrusion → Prop} {leaves : List Leaf} {d : Draft} {s : Store}

namespace Draft

/-- One more group serves its leaf. -/
theorem Served.snoc (served : Served o kind leaves d) {leaf : Leaf} {d' : Draft} {g : Group}
    (groups : d'.groups = d.groups ++ [g]) (serves : Serves o kind leaf g)
    (made : d'.store.Made o.fonts kind) : Served o kind (leaves ++ [leaf]) d' :=
  ⟨groups ▸ List.rel_append served.groups (.cons serves .nil), made⟩

/-- A run is served by the solid of its key. -/
theorem Served.run (served : Served o kind leaves d) (params : kind o.geometry)
    (value color : String) (style : Style) :
    Served o kind (leaves ++ [.text value color style]) (d.run o value.toList color style) := by
  obtain ⟨⟨p, hp, hprint, hsolid⟩, hmade⟩ := served.store.geometry_built params
    (.ofList (Text.core value.toList)) style
    (fun _ => build o (.ofList (Text.core value.toList)) style) rfl
  refine served.snoc rfl ?_ (hmade.material (Draft.color color).1).2
  rintro value' color' style' heq -
  cases heq
  exact ⟨_, p, rfl, hp, Extrusion.fingerprint_eq_iff.1 hprint.symm, hsolid⟩

/-- **One more leaf** is served, whatever it is. -/
theorem Served.add (served : Served o kind leaves d) (params : kind o.geometry) (leaf : Leaf) :
    Served o kind (leaves ++ [leaf]) (d.add o leaf) := by
  cases leaf with
  | text value color style =>
    rw [Draft.add]
    split
    · next blank =>
      refine served.snoc rfl ?_ served.store
      rintro value' color' style' heq ink
      cases heq
      exact absurd (List.isEmpty_iff.1 blank) ink
    · exact served.run params value color style
  | emote id color style =>
    exact served.snoc rfl (fun _ _ _ h => by cases h) (served.store.of_eq rfl rfl)

/-- **A row over a shared store** has solids of its texts, built from parameters that agree with
those of the heading but for numbers that are not finite. -/
theorem served_ofLeaves (made : s.Made o.fonts kind) (params : kind o.geometry)
    (leaves : List Leaf) : Served o kind leaves (ofLeaves o leaves s) :=
  ofLeaves_induction ⟨.nil, made⟩ (fun _ leaf served => served.add params leaf) leaves

end Draft

/-- **A store of things made for their keys** is one after a heading was set. -/
theorem made_ofLeaves (made : s.Made o.fonts kind) (params : kind o.geometry) (loader : Loader)
    (leaves : List Leaf) : (ofLeaves o loader leaves s).2.2.Made o.fonts kind := by
  obtain ⟨hsolids, hmaterials, -⟩ := shelves_issueAll loader (Draft.ofLeaves o leaves s).requests
    (Draft.ofLeaves o leaves s).store
  exact (Draft.served_ofLeaves made params leaves).store.of_eq hsolids hmaterials

/-- The group in a place of the row serves its leaf. -/
theorem child?_served (made : s.Made o.fonts kind) (params : kind o.geometry) (loader : Loader)
    {i : Nat} {leaf : Leaf} (hleaf : leaves[i]? = some leaf) :
    ∃ g, (ofLeaves o loader leaves s).1.row.child? i = some g ∧ Serves o kind leaf g := by
  have served := (Draft.served_ofLeaves made params leaves).groups
  obtain ⟨hi, rfl⟩ := List.getElem?_eq_some_iff.1 hleaf
  have hg : i < (Draft.ofLeaves o leaves s).groups.length := served.length_eq ▸ hi
  refine ⟨(Draft.ofLeaves o leaves s).groups[i], ?_, served.get hi hg⟩
  exact (Draft.child?_row _ i).trans (List.getElem?_eq_getElem hg)

/-! ### Who comes first -/

/-- The solid that a store gives out for a run of text. -/
def solidOf (o : Options) (core : String) (style : Style) (s : Store) :
    TextGeometry × List Event × Store :=
  s.geometry (.of core style o.geometry) fun _ => Draft.build o core style

/-- A new store builds it from the parameters of the heading. -/
theorem params_solidOf_start (o : Options) (core : String) (style : Style) :
    (solidOf o core style {}).1.params = o.geometry := rfl

/-- A heading of one text that is not blank has the solid that the store gives out for it. -/
theorem ofLeaves_singleton (o : Options) (loader : Loader) {value : String} (color : String)
    (style : Style) (ink : Text.core value.toList ≠ []) (s : Store) :
    let solid := solidOf o (.ofList (Text.core value.toList)) style s
    (∃ g m, (ofLeaves o loader [.text value color style] s).1.row.child? 0 = some g ∧
      g.children = [.mesh m] ∧ m.geometry = solid.1) ∧
    (ofLeaves o loader [.text value color style] s).2.2.geometries = solid.2.2.geometries := by
  have hink : ¬ (Text.core value.toList).isEmpty := fun h => ink (List.isEmpty_iff.1 h)
  have hdraft : Draft.ofLeaves o [.text value color style] s =
      (Draft.start s).run o value.toList color style := if_neg hink
  constructor
  · rw [ofLeaves, Draft.child?_row, hdraft]
    exact ⟨_, _, rfl, rfl, rfl⟩
  · rw [ofLeaves, (shelves_issueAll loader _ _).1, hdraft]
    rfl

/-- **A text that is set again**, in whatever color, gets the solid of the first time, if the
parameters agree but for numbers that are not finite: a key holds no more of them than their
fingerprint. -/
theorem solid_again {o o' : Options} (alike : o'.geometry.Alike o.geometry) (s : Store)
    (loader loader' : Loader) {value : String} (ink : Text.core value.toList ≠ [])
    (color color' : String) (style : Style) :
    let first := ofLeaves o loader [.text value color style] s
    ∃ g m, (ofLeaves o' loader' [.text value color' style] first.2.2).1.row.child? 0 = some g ∧
      g.children = [.mesh m] ∧
      m.geometry = (solidOf o (.ofList (Text.core value.toList)) style s).1 := by
  intro first
  have hkey : SolidKey.of (.ofList (Text.core value.toList)) style o'.geometry =
      .of (.ofList (Text.core value.toList)) style o.geometry :=
    congrArg (SolidKey.mk _ style) (Extrusion.fingerprint_eq_iff.2 alike)
  obtain ⟨-, hstore⟩ := ofLeaves_singleton o loader color style ink s
  obtain ⟨⟨g, m, hg, hm, hsolid⟩, -⟩ := ofLeaves_singleton o' loader' color' style ink first.2.2
  refine ⟨g, m, hg, hm, hsolid.trans ?_⟩
  rw [solidOf, hkey]
  exact geometry_again hstore _

end Heading

end Marquee
