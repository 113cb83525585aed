import Marquee.Proofs.Store.Ledger
import Mathlib.Data.List.Induction

/-!
# What Is Laid Out Where

A row has one group to each leaf. The group of an emote shows a stack of its picture where
the store has one, and a placeholder otherwise. The requests of a row name places of
emotes only, and of those only what the store lacks: a picture is not put on any shelf
while a row is laid out, so it does not matter when an emote comes.

The leaves are laid out from left to right, so the invariant `Draft.Laid` speaks of those
that are laid out already, and each leaf adds to it at the end.

## Main statements

* `Request.mem_ask` — what asking for one more picture does to requests;
* `Request.mem_slots_ask` — asking for a picture adds one place and keeps the others;
* `Draft.ofLeaves_induction` — what one more leaf keeps holds of a row;
* `Draft.laid_ofLeaves` — a row that is laid out is as above.
-/

namespace Marquee

open Fetch Markup Scene Store

namespace Fetch.Request

variable {url id : String} {slot : Nat} {rs : List Request} {r : Request}

/-- **What asking for a picture comes to.** A request is new, or one with its address has one
more place that waits, and the others stay. -/
theorem mem_ask (hr : r ∈ ask url id slot rs) :
    r = ⟨url, id, [slot]⟩ ∨
      (∃ q ∈ rs, q.url = url ∧ r = { q with slots := q.slots ++ [slot] }) ∨ r ∈ rs := by
  fun_induction ask url id slot rs with
  | case1 => exact .inl (List.mem_singleton.1 hr)
  | case2 q rs heq =>
    rcases List.mem_cons.1 hr with rfl | hr
    · exact .inr (.inl ⟨q, List.mem_cons_self, heq.symm, rfl⟩)
    · exact .inr (.inr (List.mem_cons_of_mem _ hr))
  | case3 q rs hne hlt => exact (List.mem_cons.1 hr).imp_right .inr
  | case4 q rs hne hle ih =>
    rcases List.mem_cons.1 hr with rfl | hr
    · exact .inr (.inr List.mem_cons_self)
    · rcases ih hr with new | ⟨p, hp, more⟩ | old
      · exact .inl new
      · exact .inr (.inl ⟨p, List.mem_cons_of_mem _ hp, more⟩)
      · exact .inr (.inr (List.mem_cons_of_mem _ old))

/-- A place that waits after asking for a picture is the one it was asked for, or waited
before, for a picture at the same address. -/
theorem mem_slots_ask {i : Nat} (hr : r ∈ ask url id slot rs) (hi : i ∈ r.slots) :
    (i = slot ∧ r.url = url) ∨ ∃ q ∈ rs, q.url = r.url ∧ i ∈ q.slots := by
  rcases mem_ask hr with rfl | ⟨q, hq, hurl, rfl⟩ | hr
  · exact .inl ⟨List.mem_singleton.1 hi, rfl⟩
  · rcases List.mem_append.1 hi with hi | hi
    · exact .inr ⟨q, hq, rfl, hi⟩
    · exact .inl ⟨List.mem_singleton.1 hi, hurl⟩
  · exact .inr ⟨r, hr, rfl, hi⟩

end Fetch.Request

/-- A solid is taken from its shelf and from no other. -/
theorem Store.shelves_geometry (s : Store) (k : SolidKey)
    (build : Unit → TextGeometry × List Event) :
    (s.geometry k build).2.2 =
      { s with geometries := (s.geometries.take k fun _ => (build ()).1).2 } := by
  rw [geometry, Shelf.take]
  rcases s.geometries.look k with ⟨_ | g, shelf⟩ <;> rfl

/-- A solid is taken without a look at the textures. -/
theorem Store.textures_geometry (s : Store) (k : SolidKey)
    (build : Unit → TextGeometry × List Event) :
    (s.geometry k build).2.2.textures = s.textures := by
  rw [shelves_geometry]

/-- A solid is taken without a look at the materials. -/
@[simp]
theorem Store.materials_geometry (s : Store) (k : SolidKey)
    (build : Unit → TextGeometry × List Event) :
    (s.geometry k build).2.2.materials = s.materials := by
  rw [shelves_geometry]

/-- Materials are taken without a look at the textures. -/
theorem Store.textures_material (s : Store) (c : Color) :
    (s.material c).2.textures = s.textures := rfl

/-- Looking for a texture finds what is stored under the address. -/
theorem Store.texture?_fst (s : Store) (url : String) :
    (s.texture? url).1 = s.textures.get? url :=
  s.textures.look_fst url

/-- Looking for a texture changes none. -/
theorem Store.get?_texture? (s : Store) (url u : String) :
    (s.texture? url).2.textures.get? u = s.textures.get? u :=
  s.textures.get?_look url u

/-- What stands in a list behind which one more thing was put. -/
theorem getElem?_concat_cases {α : Type} {l : List α} {a b : α} {i : Nat}
    (h : (l ++ [a])[i]? = some b) : l[i]? = some b ∨ i = l.length ∧ b = a := by
  rcases Nat.lt_trichotomy i l.length with hlt | rfl | hgt
  · rw [List.getElem?_append_left hlt] at h
    exact .inl h
  · rw [List.getElem?_concat_length] at h
    exact .inr ⟨rfl, (Option.some.inj h).symm⟩
  · rw [List.getElem?_eq_none (by rw [List.length_append]; exact hgt)] at h
    cases h

namespace Heading

/-- What an emote shows, given the textures of a store. -/
def shown (o : Options) (s : Store) (id : String) : List Node :=
  match s.textures.get? (o.emotes.urlFor id) with
  | some t => (Stack.ofOptions o).sprites t
  | none => [(Stack.ofOptions o).placeholder]

namespace Draft

/-- What holds of a draft once some leaves are laid out over a store. -/
structure Laid (o : Options) (s : Store) (leaves : List Leaf) (d : Draft) : Prop where
  length : d.groups.length = leaves.length
  textures : ∀ url, d.store.textures.get? url = s.textures.get? url
  emote : ∀ (i : Nat) id color style, leaves[i]? = some (Leaf.emote id color style) →
    ∃ g : Group, d.groups[i]? = some g ∧ g.children = shown o s id
  /-- A place that waits is that of an emote without a picture. -/
  waits : ∀ r ∈ d.requests, ∀ i ∈ r.slots, ∃ id color style,
    leaves[i]? = some (Leaf.emote id color style) ∧ r.url = o.emotes.urlFor id ∧
      s.textures.get? r.url = none

variable {o : Options} {s : Store} {leaves : List Leaf} {d : Draft}

/-- A draft without groups has nothing laid out. -/
theorem laid_start (o : Options) (s : Store) : Laid o s [] (start s) := by
  refine ⟨rfl, fun _ => rfl, ?_, ?_⟩
  · intro i id color style hleaf
    cases hleaf
  · intro r hr
    cases hr

/-- **One more leaf.** It is enough that its group comes last, that no texture comes or
goes, and that a place that did not wait before is that of the leaf. -/
theorem Laid.snoc (laid : Laid o s leaves d) {leaf : Leaf} {d' : Draft} {g : Group}
    (groups : d'.groups = d.groups ++ [g])
    (textures : ∀ url, d'.store.textures.get? url = d.store.textures.get? url)
    (emote : ∀ id color style, leaf = .emote id color style → g.children = shown o s id)
    (waits : ∀ r ∈ d'.requests, ∀ i ∈ r.slots, (∃ q ∈ d.requests, q.url = r.url ∧ i ∈ q.slots) ∨
      i = d.groups.length ∧ ∃ id color style, leaf = .emote id color style ∧
        r.url = o.emotes.urlFor id ∧ s.textures.get? r.url = none) :
    Laid o s (leaves ++ [leaf]) d' := by
  refine ⟨?_, fun url => (textures url).trans (laid.textures url), ?_, ?_⟩
  · rw [groups, List.length_append, List.length_append, laid.length]
    rfl
  · intro i id color style hleaf
    rw [groups]
    rcases getElem?_concat_cases hleaf with old | ⟨rfl, hnew⟩
    · obtain ⟨f, hf, hshown⟩ := laid.emote i id color style old
      exact ⟨f, (List.getElem?_append_left (List.getElem?_eq_some_iff.1 hf).1).trans hf, hshown⟩
    · rw [← laid.length, List.getElem?_concat_length]
      exact ⟨g, rfl, emote id color style hnew.symm⟩
  · intro r hr i hi
    rcases waits r hr i hi with ⟨q, hq, hurl, hslot⟩ | ⟨rfl, id, color, style, rfl, hrest⟩
    · obtain ⟨id, color, style, hleaf, hrest⟩ := laid.waits q hq i hslot
      have hlt : i < leaves.length := (List.getElem?_eq_some_iff.1 hleaf).1
      exact ⟨id, color, style, (List.getElem?_append_left hlt).trans hleaf, hurl ▸ hrest⟩
    · rw [laid.length]
      exact ⟨id, color, style, List.getElem?_concat_length, hrest⟩

/-- A leaf without a picture brings no request. -/
theorem Laid.snoc_text (laid : Laid o s leaves d) {value color : String} {style : Style}
    {d' : Draft} {g : Group} (groups : d'.groups = d.groups ++ [g])
    (textures : ∀ url, d'.store.textures.get? url = d.store.textures.get? url)
    (requests : d'.requests = d.requests) :
    Laid o s (leaves ++ [.text value color style]) d' := by
  refine laid.snoc groups textures (fun id color style hleaf => by cases hleaf) ?_
  intro r hr i hi
  exact .inl ⟨r, requests ▸ hr, rfl, hi⟩

/-- A blank text is laid out without a picture. -/
theorem Laid.space (laid : Laid o s leaves d) (text : List Char) (value color : String)
    (style : Style) : Laid o s (leaves ++ [.text value color style]) (d.space o text) :=
  laid.snoc_text rfl (fun _ => rfl) rfl

/-- A run is laid out without a picture. -/
theorem Laid.run (laid : Laid o s leaves d) (text : List Char) (value color : String)
    (style : Style) :
    Laid o s (leaves ++ [.text value color style]) (d.run o text color style) := by
  refine laid.snoc_text rfl (fun url => ?_) rfl
  simp only [Draft.run, Store.textures_material, Store.textures_geometry]

/-- An emote finds what the store had when the row was begun. -/
theorem Laid.found (laid : Laid o s leaves d) (id : String) :
    (d.store.texture? (o.emotes.urlFor id)).1 = s.textures.get? (o.emotes.urlFor id) :=
  (d.store.texture?_fst _).trans (laid.textures _)

/-- An emote asks for its picture if the store had none when the row was begun. -/
theorem Laid.requests_emote (laid : Laid o s leaves d) (id : String) :
    (d.emote o id).requests = if (s.textures.get? (o.emotes.urlFor id)).isSome then d.requests
      else Request.ask (o.emotes.urlFor id) id d.groups.length d.requests := by
  rw [← laid.found id]
  rfl

/-- A text asks for nothing. -/
theorem requests_add_text (d : Draft) (o : Options) (value color : String) (style : Style) :
    (d.add o (.text value color style)).requests = d.requests := by
  rw [add]
  split <;> rfl

/-- An emote shows what the store had when the row was begun. -/
theorem Laid.picture (laid : Laid o s leaves d) (id color : String) (style : Style) :
    Laid o s (leaves ++ [.emote id color style]) (d.emote o id) := by
  refine laid.snoc rfl (fun url => d.store.get?_texture? _ url) ?_ ?_
  · rintro id' color' style' heq
    cases heq
    rw [shown, ← laid.found id]
    rfl
  · intro r hr i hi
    rw [laid.requests_emote] at hr
    rcases hcached : s.textures.get? (o.emotes.urlFor id) with _ | t
    · rw [hcached] at hr
      rcases Request.mem_slots_ask hr hi with ⟨rfl, hurl⟩ | old
      · exact .inr ⟨rfl, id, color, style, rfl, hurl, hurl ▸ hcached⟩
      · exact .inl old
    · rw [hcached] at hr
      exact .inl ⟨r, hr, rfl, hi⟩

/-- **One more leaf** is laid out, whatever it is. -/
theorem Laid.add (laid : Laid o s leaves d) (leaf : Leaf) :
    Laid o s (leaves ++ [leaf]) (d.add o leaf) := by
  cases leaf with
  | text value color style =>
    rw [Draft.add]
    split
    · exact laid.space _ value color style
    · exact laid.run _ value color style
  | emote id color style => exact laid.picture id color style

/-- **Leaf by leaf.** What holds without leaves and is kept by one more leaf holds of a row.
Induction on the leaves from the right, as the last one is the last to be added. -/
theorem ofLeaves_induction {P : List Leaf → Draft → Prop} (nil : P [] (start s))
    (snoc : ∀ leaves leaf, P leaves (ofLeaves o leaves s) →
      P (leaves ++ [leaf]) ((ofLeaves o leaves s).add o leaf)) (leaves : List Leaf) :
    P leaves (ofLeaves o leaves s) := by
  induction leaves using List.reverseRecOn with
  | nil => exact nil
  | append_singleton leaves leaf ih =>
    rw [ofLeaves, List.foldl_append]
    exact snoc leaves leaf ih

/-- **A row that is laid out.** -/
theorem laid_ofLeaves (o : Options) (leaves : List Leaf) (s : Store) :
    Laid o s leaves (ofLeaves o leaves s) :=
  ofLeaves_induction (laid_start o s) (fun _ leaf laid => laid.add leaf) leaves

/-- The children of a finished row are its groups. -/
theorem child?_row (d : Draft) (i : Nat) : d.row.child? i = d.groups[i]? := by
  have hchildren : d.row.children = d.groups.map Group.toNode := rfl
  rw [Group.child?, hchildren, List.getElem?_map]
  cases d.groups[i]? <;> rfl

end Draft

section Loads

variable {o : Options} {loader : Loader} {leaves : List Leaf} {s : Store} {e : Errand}

/-- The loads of a heading are for the requests of its row. -/
theorem map_request_ofLeaves (o : Options) (loader : Loader) (leaves : List Leaf) (s : Store) :
    ((ofLeaves o loader leaves s).1.loads.map (·.errand)).map (·.request) =
      (Draft.ofLeaves o leaves s).requests := by
  rw [errands_ofLeaves, List.map_map]
  exact List.zipIdx_map_fst _ _

/-- The request of a load was made when the row was laid out. -/
theorem request_mem (own : e ∈ (ofLeaves o loader leaves s).1.loads.map (·.errand)) :
    e.request ∈ (Draft.ofLeaves o leaves s).requests := by
  rw [← map_request_ofLeaves o loader]
  exact List.mem_map_of_mem own

/-- A place that a load names is that of an emote without a picture. -/
theorem emote_of_slot (own : e ∈ (ofLeaves o loader leaves s).1.loads.map (·.errand)) {i : Nat}
    (hi : i ∈ e.request.slots) : ∃ id color style,
      leaves[i]? = some (.emote id color style) ∧ e.request.url = o.emotes.urlFor id ∧
        s.textures.get? e.request.url = none :=
  (Draft.laid_ofLeaves o leaves s).waits e.request (request_mem own) i hi

/-- Every request of a row has its load. -/
theorem exists_load_of_request (loader : Loader) {r : Request}
    (hr : r ∈ (Draft.ofLeaves o leaves s).requests) :
    ∃ e ∈ (ofLeaves o loader leaves s).1.loads.map (·.errand), e.request = r := by
  rw [← map_request_ofLeaves o loader] at hr
  exact List.mem_map.1 hr

/-- The loads of a heading are of the generation that it was set under. -/
theorem generation_of_mem (own : e ∈ (ofLeaves o loader leaves s).1.loads.map (·.errand)) :
    e.generation = s.generation := by
  rw [errands_ofLeaves] at own
  obtain ⟨⟨r, n⟩, -, rfl⟩ := List.mem_map.1 own
  rfl

end Loads

end Heading

end Marquee
