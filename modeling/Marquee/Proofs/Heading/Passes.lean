import Marquee.Heading.Compile
import Marquee.Proofs.Heading.Life

/-!
# Passes Do Not See Each Other

Setting a heading looks at a store in one way only: for what stands on its shelves. How often
they were used, which loads are under way or were called off, and how often the store was
cleared makes no difference. So two stores with the same things on their shelves can be
followed in step through the setting of a heading, and since a pass begins by clearing the
shelves, any two stores at all can be followed through a pass.

## Main statements

* `Draft.Alike.add`, `alike_ofLeaves` — in step through one leaf, and through all of a heading;
* `passes_isolated` — what a pass makes of markup does not depend on the store it is given.
-/

namespace Marquee

open Fetch Markup Scene Store

/-! ### Stores with the same things on their shelves -/

namespace Store

/-- Looking for something stores nothing. -/
@[simp]
theorem Shelf.entries_look {κ α : Type} [DecidableEq κ] (s : Shelf κ α) (k : κ) :
    (s.look k).2.entries = s.entries := by
  unfold Shelf.look
  split <;> rfl

/-- The same things stand on the shelves of two stores. -/
structure Alike (s t : Store) : Prop where
  geometries : s.geometries.entries = t.geometries.entries
  materials : s.materials.entries = t.materials.entries
  textures : s.textures.entries = t.textures.entries

variable {s t : Store}

/-- After a clearing nothing stands on any shelf. -/
theorem alike_clear (s t : Store) : s.clear.2.2.Alike t.clear.2.2 := ⟨rfl, rfl, rfl⟩

/-- Two stores give out and keep the same solid. -/
theorem Alike.geometry (alike : s.Alike t) (k : SolidKey)
    (build : Unit → TextGeometry × List Event) :
    (s.geometry k build).1 = (t.geometry k build).1 ∧
      (s.geometry k build).2.1 = (t.geometry k build).2.1 ∧
      (s.geometry k build).2.2.Alike (t.geometry k build).2.2 := by
  have hget : s.geometries.get? k = t.geometries.get? k := by
    rw [Shelf.get?, Shelf.get?, alike.geometries]
  rw [Store.geometry, Store.geometry, Shelf.look, Shelf.look, hget]
  cases t.geometries.get? k with
  | some g => exact ⟨rfl, rfl, alike.geometries, alike.materials, alike.textures⟩
  | none =>
    refine ⟨rfl, rfl, ?_, alike.materials, alike.textures⟩
    simp only [Shelf.put, alike.geometries]

/-- Two stores give out and keep the same materials. -/
theorem Alike.material (alike : s.Alike t) (c : Color) :
    (s.material c).1 = (t.material c).1 ∧ (s.material c).2.Alike (t.material c).2 := by
  have hget : s.materials.get? c = t.materials.get? c := by
    rw [Shelf.get?, Shelf.get?, alike.materials]
  rw [Store.material, Store.material, Shelf.take, Shelf.take, Shelf.look, Shelf.look, hget]
  cases t.materials.get? c with
  | some m => exact ⟨rfl, alike.geometries, alike.materials, alike.textures⟩
  | none =>
    refine ⟨rfl, alike.geometries, ?_, alike.textures⟩
    simp only [Shelf.put, alike.materials]

/-- Two stores have the same pictures. -/
theorem Alike.texture? (alike : s.Alike t) (url : String) :
    (s.texture? url).1 = (t.texture? url).1 ∧ (s.texture? url).2.Alike (t.texture? url).2 := by
  refine ⟨?_, alike.geometries, alike.materials, ?_⟩
  · rw [texture?_fst, texture?_fst, Shelf.get?, Shelf.get?, alike.textures]
  · rw [Store.texture?, Store.texture?, Shelf.entries_look, Shelf.entries_look, alike.textures]

end Store

namespace Heading

/-! ### Rows laid out in step -/

/-- Two rows with the same groups and requests, over stores with the same things. -/
structure Draft.Alike (d e : Draft) : Prop where
  cursor : d.cursor = e.cursor
  groups : d.groups = e.groups
  requests : d.requests = e.requests
  events : d.events = e.events
  store : d.store.Alike e.store

section Row

variable {d e : Draft}

/-- A blank text keeps drafts alike. -/
theorem Draft.Alike.space (alike : d.Alike e) (o : Options) (text : List Char) :
    (d.space o text).Alike (e.space o text) := by
  refine ⟨?_, ?_, alike.requests, alike.events, alike.store⟩
  · rw [Draft.space, Draft.space, alike.cursor]
  · rw [Draft.space, Draft.space, alike.cursor, alike.groups]

/-- A run keeps drafts alike. -/
theorem Draft.Alike.run (alike : d.Alike e) (o : Options) (text : List Char) (color : String)
    (style : Style) : (d.run o text color style).Alike (e.run o text color style) := by
  obtain ⟨hgeometry, hbuilt, hstore⟩ := alike.store.geometry
    (.of (.ofList (Text.core text)) style o.geometry)
    fun _ => Draft.build o (.ofList (Text.core text)) style
  obtain ⟨hpair, hstore⟩ := hstore.material (Draft.color color).1
  refine ⟨?_, ?_, alike.requests, ?_, hstore⟩
  · simp only [Draft.run, hgeometry, alike.cursor]
  · simp only [Draft.run, hgeometry, hpair, alike.cursor, alike.groups]
  · simp only [Draft.run, hbuilt, alike.events]

/-- An emote keeps drafts alike. -/
theorem Draft.Alike.emote (alike : d.Alike e) (o : Options) (id : String) :
    (d.emote o id).Alike (e.emote o id) := by
  obtain ⟨hfound, hstore⟩ := alike.store.texture? (o.emotes.urlFor id)
  refine ⟨?_, ?_, ?_, alike.events, hstore⟩
  · simp only [Draft.emote, alike.cursor]
  · simp only [Draft.emote, hfound, alike.cursor, alike.groups]
  · simp only [Draft.emote, hfound, alike.groups, alike.requests]

/-- **One leaf** keeps two rows in step. -/
theorem Draft.Alike.add (alike : d.Alike e) (o : Options) (leaf : Leaf) :
    (d.add o leaf).Alike (e.add o leaf) := by
  cases leaf with
  | text value color style =>
    rw [Draft.add, Draft.add]
    split
    · exact alike.space o _
    · exact alike.run o _ color style
  | emote id color style => exact alike.emote o id

/-- Drafts over stores that are alike are alike. -/
theorem Draft.alike_ofLeaves (o : Options) (leaves : List Leaf) {s t : Store} (alike : s.Alike t) :
    (Draft.ofLeaves o leaves s).Alike (Draft.ofLeaves o leaves t) :=
  List.foldl_rel ⟨rfl, rfl, rfl, rfl, alike⟩ fun leaf _ _ _ step => step.add o leaf

end Row

/-! ### Headings set in step -/

/-- A load without its number and generation: what it is for, what its answer will be, and
whether that was asked for. -/
def ticket (l : Load) : Request × Response × Bool := (l.errand.request, l.response, l.called)

/-- Two headings that differ in the numbers and generations of their loads at most. -/
structure Alike (g h : Heading) : Prop where
  pivot : g.pivot = h.pivot
  row : g.row = h.row
  width : g.width = h.width
  stack : g.stack = h.stack
  loads : g.loads.map ticket = h.loads.map ticket

/-- A load that is issued has its request, the answer of the loader, and was not called off. -/
theorem tickets_issueAll (loader : Loader) (rs : List Request) (s : Store) :
    (issueAll loader rs s).1.map ticket = rs.map fun r => (r, loader r.url, false) := by
  induction rs generalizing s with
  | nil => rfl
  | cons r rs ih =>
    rw [issueAll, List.map_cons, List.map_cons]
    exact congrArg (List.cons _) (ih _)

/-- Issuing loads leaves the shelves as they are. -/
theorem shelves_issueAll (loader : Loader) (rs : List Request) (s : Store) :
    (issueAll loader rs s).2.2.geometries = s.geometries ∧
      (issueAll loader rs s).2.2.materials = s.materials ∧
      (issueAll loader rs s).2.2.textures = s.textures := by
  induction rs generalizing s with
  | nil => exact ⟨rfl, rfl, rfl⟩
  | cons r rs ih => exact ih _

/-- **All of a heading** is set in step over stores with the same things. -/
theorem alike_ofLeaves (o : Options) (loader : Loader) (leaves : List Leaf) {s t : Store}
    (alike : s.Alike t) :
    (ofLeaves o loader leaves s).1.Alike (ofLeaves o loader leaves t).1 ∧
      (ofLeaves o loader leaves s).2.2.Alike (ofLeaves o loader leaves t).2.2 := by
  have rows := Draft.alike_ofLeaves o leaves alike
  constructor
  · refine ⟨rfl, ?_, rows.cursor, rfl, ?_⟩
    · rw [ofLeaves, ofLeaves, Draft.row, Draft.row, rows.groups]
    · rw [ofLeaves, ofLeaves, tickets_issueAll, tickets_issueAll, rows.requests]
  · obtain ⟨hg, hm, ht⟩ := shelves_issueAll loader (Draft.ofLeaves o leaves s).requests
      (Draft.ofLeaves o leaves s).store
    obtain ⟨hg', hm', ht'⟩ := shelves_issueAll loader (Draft.ofLeaves o leaves t).requests
      (Draft.ofLeaves o leaves t).store
    constructor
    · rw [ofLeaves, ofLeaves, hg, hg', rows.store.geometries]
    · rw [ofLeaves, ofLeaves, hm, hm', rows.store.materials]
    · rw [ofLeaves, ofLeaves, ht, ht', rows.store.textures]

/-! ### Passes -/

/-- The leaves of some markup. -/
def leavesOf (markup : String) : List Leaf := (parse (tokenize markup)).1

/-- A pass is a clearing, and then a heading that is set. -/
theorem compile_eq (o : Options) (loader : Loader) (markup : String) (s : Store) :
    (compile o loader markup s).1 = (ofLeaves o loader (leavesOf markup) s.clear.2.2).1 ∧
      (compile o loader markup s).2.2 = (ofLeaves o loader (leavesOf markup) s.clear.2.2).2.2 :=
  ⟨rfl, rfl⟩

/-- Laying out a row brings no picture. -/
theorem textures_ofLeaves (o : Options) (loader : Loader) (leaves : List Leaf) (s : Store)
    (url : String) :
    (ofLeaves o loader leaves s).2.2.textures.get? url = s.textures.get? url := by
  have hissue := (shelves_issueAll loader (Draft.ofLeaves o leaves s).requests
    (Draft.ofLeaves o leaves s).store).2.2
  rw [ofLeaves, hissue]
  exact (Draft.laid_ofLeaves o leaves s).textures url

/-- The loads under way after a pass are those of its requests, as the clearing before it
called off all others. -/
theorem pendingLoads_compile (o : Options) (loader : Loader) (markup : String) (s : Store) :
    (compile o loader markup s).2.2.pendingLoads =
      (Draft.ofLeaves o (leavesOf markup) s.clear.2.2).requests.length := by
  have hledger := congrArg Store.Ledger.inFlight
    (ledger_ofLeaves o loader (leavesOf markup) s.clear.2.2)
  rw [(compile_eq o loader markup s).2, Store.pendingLoads]
  refine (congrArg List.length hledger).trans ?_
  simp [Store.Ledger.enter, Store.ledger, Store.clear]

/-- **Passes are isolated.** Over any two stores, whatever became of them before, a pass over
some markup makes the same heading with the same loads, but for their numbers and their
generation. It leaves the same things on the shelves, no pictures among them, and as many
loads under way. Every emote of the heading is a placeholder. -/
theorem passes_isolated (o : Options) (loader : Loader) (markup : String) (s t : Store) :
    (compile o loader markup s).1.Alike (compile o loader markup t).1 ∧
      (compile o loader markup s).2.2.Alike (compile o loader markup t).2.2 ∧
      (∀ url, (compile o loader markup s).2.2.textures.get? url = none) ∧
      (compile o loader markup s).2.2.pendingLoads =
        (compile o loader markup t).2.2.pendingLoads ∧
      ∀ i id color style, (leavesOf markup)[i]? = some (.emote id color style) →
        ∃ g, (compile o loader markup s).1.row.child? i = some g ∧ g.IsPlaceholder := by
  obtain ⟨hheading, hstore⟩ := alike_ofLeaves o loader (leavesOf markup) (alike_clear s t)
  refine ⟨hheading, hstore, fun url => textures_ofLeaves o loader (leavesOf markup) _ url, ?_, ?_⟩
  · rw [pendingLoads_compile, pendingLoads_compile,
      (Draft.alike_ofLeaves o (leavesOf markup) (alike_clear s t)).requests]
  · intro i id color style hleaf
    obtain ⟨g, hg, hshown⟩ :=
      (Draft.laid_ofLeaves o (leavesOf markup) s.clear.2.2).emote i id color style hleaf
    exact ⟨g, (Draft.child?_row _ i).trans hg, _, hshown, rfl⟩

end Heading

end Marquee
