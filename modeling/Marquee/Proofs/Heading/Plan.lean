import Marquee.Proofs.Heading.Life
import Marquee.Proofs.Heading.Requests
import Mathlib.Data.Finset.Card
import Mathlib.Data.List.Forall2

/-!
# Which Pictures a Heading Asks For

Setting some leaves over a store plans the loads of a heading. There is one to each address
that an emote has and that the store has no picture for, and there is no other. It waits in
the places of all the emotes with its address, from left to right, and is made in the name
of the first of them.

That the places of a request stand in order is an invariant of rows being laid out, as is
which places wait. That they are the places of the placeholders is read off the groups: the
group of an emote shows a placeholder exactly if its picture is missing, and that of a text
has no sprites at all.

## Main statements

* `Draft.ordered_ofLeaves` — the places of a request stand in order;
* `stands_of_leaf`, `stands_of_child?` — the places of a heading just set have the groups of
  its leaves;
* `planned_ofLeaves` — what a load of a heading waits for;
* `plan_exact` — the loads of a heading are those for the missing pictures.
-/

namespace Marquee

open Fetch Markup Scene

/-- Whether a group shows a placeholder, alone or not. -/
def Scene.Group.HoldsPlaceholder (g : Group) : Prop :=
  ∃ sprite ∈ g.sprites, sprite.placeholder = true

namespace Scene.Group

/-- A placeholder is a group that holds one. -/
theorem IsPlaceholder.holdsPlaceholder {g : Group} (h : g.IsPlaceholder) :
    g.HoldsPlaceholder := by
  obtain ⟨sprite, hchildren, hplace⟩ := h
  refine ⟨sprite, List.mem_filterMap.2 ⟨.sprite sprite, ?_, rfl⟩, hplace⟩
  rw [hchildren]
  exact List.mem_cons_self

/-- A stack holds no placeholder. -/
theorem IsStack.not_holdsPlaceholder {g : Group} {n : Nat} (h : g.IsStack n) :
    ¬ g.HoldsPlaceholder := by
  rintro ⟨sprite, hsprite, hplace⟩
  obtain ⟨c, hc, heq⟩ := List.mem_filterMap.1 hsprite
  obtain ⟨-, t, hall⟩ := h
  obtain ⟨full, rfl, hfull, -⟩ := hall c hc
  obtain rfl : full = sprite := Option.some.inj heq
  rw [hplace] at hfull
  cases hfull

end Scene.Group

namespace Heading

/-- The address of the picture that a leaf shows. -/
def address? (o : Options) : Leaf → Option String
  | .text .. => none
  | .emote id _ _ => some (o.emotes.urlFor id)

/-- The addresses of the pictures that some leaves show and that a store lacks. -/
def missing (o : Options) (leaves : List Leaf) (s : Store) : Finset String :=
  (leaves.filterMap (address? o)).toFinset.filter fun url => (s.textures.get? url).isNone

/-- The leaves with an address are emotes, each with its own. -/
theorem address?_eq_some_iff {o : Options} {leaf : Leaf} {url : String} :
    address? o leaf = some url ↔
      ∃ id color style, leaf = .emote id color style ∧ o.emotes.urlFor id = url := by
  cases leaf with
  | text value color style => simp [address?]
  | emote id color style => simp [address?]

/-- An address is missing if an emote has it and the store has nothing under it. -/
theorem mem_missing {o : Options} {leaves : List Leaf} {s : Store} {url : String} :
    url ∈ missing o leaves s ↔
      (∃ id color style, Leaf.emote id color style ∈ leaves ∧ o.emotes.urlFor id = url) ∧
        s.textures.get? url = none := by
  rw [missing, Finset.mem_filter, List.mem_toFinset, List.mem_filterMap, Option.isNone_iff_eq_none]
  refine and_congr_left fun _ => ⟨?_, ?_⟩
  · rintro ⟨leaf, hleaf, haddress⟩
    obtain ⟨id, color, style, rfl, hurl⟩ := address?_eq_some_iff.1 haddress
    exact ⟨id, color, style, hleaf, hurl⟩
  · rintro ⟨id, color, style, hleaf, rfl⟩
    exact ⟨_, hleaf, rfl⟩

/-! ### The order of places -/

/-- The places of each request stand in order, and it is made in the name of the first. -/
def Draft.Ordered (leaves : List Leaf) (d : Draft) : Prop :=
  ∀ r ∈ d.requests, r.slots.Pairwise (· < ·) ∧ ∃ i rest color style,
    r.slots = i :: rest ∧ leaves[i]? = some (.emote r.emoteId color style)

section Ordered

variable {o : Options} {s : Store} {leaves : List Leaf} {d : Draft}

/-- What is in order stays so with more leaves behind. -/
theorem Draft.Ordered.append (ordered : Ordered leaves d) (more : List Leaf) :
    Ordered (leaves ++ more) d := by
  intro r hr
  obtain ⟨hslots, i, rest, color, style, hfirst, hleaf⟩ := ordered r hr
  have hlt : i < leaves.length := (List.getElem?_eq_some_iff.1 hleaf).1
  exact ⟨hslots, i, rest, color, style, hfirst, (List.getElem?_append_left hlt).trans hleaf⟩

/-- A new place comes behind the others, as those are of leaves before it. -/
theorem Draft.Ordered.ask (ordered : Ordered leaves d) (laid : Laid o s leaves d)
    (id color : String) (style : Style) {r : Request}
    (hr : r ∈ Request.ask (o.emotes.urlFor id) id d.groups.length d.requests) :
    r.slots.Pairwise (· < ·) ∧ ∃ i rest color' style', r.slots = i :: rest ∧
      (leaves ++ [.emote id color style])[i]? = some (.emote r.emoteId color' style') := by
  rcases Request.mem_ask hr with rfl | ⟨q, hq, -, rfl⟩ | hr
  · refine ⟨List.pairwise_singleton _ _, d.groups.length, [], color, style, rfl, ?_⟩
    rw [laid.length]
    exact List.getElem?_concat_length
  · obtain ⟨hslots, i, rest, color', style', hfirst, hleaf⟩ := ordered.append _ q hq
    refine ⟨List.pairwise_append.2 ⟨hslots, List.pairwise_singleton _ _, ?_⟩, i,
      rest ++ [d.groups.length], color', style', congrArg (· ++ _) hfirst, hleaf⟩
    intro j hj k hk
    obtain rfl := List.mem_singleton.1 hk
    obtain ⟨_, _, _, hwaits, -⟩ := laid.waits q hq j hj
    rw [laid.length]
    exact (List.getElem?_eq_some_iff.1 hwaits).1
  · exact ordered.append _ r hr

/-- One more leaf asks for its address behind all others, if at all. -/
theorem Draft.Ordered.add (ordered : Ordered leaves d) (laid : Laid o s leaves d) (leaf : Leaf) :
    Ordered (leaves ++ [leaf]) (d.add o leaf) := by
  cases leaf with
  | text value color style =>
    rw [Ordered, requests_add_text]
    exact ordered.append _
  | emote id color style =>
    rw [Ordered, Draft.add, laid.requests_emote]
    split
    · exact ordered.append _
    · exact fun r hr => ordered.ask laid id color style hr

/-- The places of every request of a row stand in order. -/
theorem Draft.ordered_ofLeaves (o : Options) (leaves : List Leaf) (s : Store) :
    Ordered leaves (ofLeaves o leaves s) :=
  ofLeaves_induction (P := Ordered) (List.forall_mem_nil _)
    (fun leaves leaf ordered => ordered.add (laid_ofLeaves o leaves s) leaf) leaves

end Ordered

/-! ### The group of a leaf -/

/-- What the group of a leaf is like, whatever solids and materials a store gives out. -/
inductive Stands (o : Options) (s : Store) : Leaf → Group → Prop
  | text {value color : String} {style : Style} {g : Group}
      (meshes : ∀ c ∈ g.children, ∃ m, c = .mesh m) : Stands o s (.text value color style) g
  | emote {id color : String} {style : Style} {g : Group} (name : g.name = "emote:" ++ id)
      (children : g.children = shown o s id) : Stands o s (.emote id color style) g

section Stands

variable {o : Options} {loader : Loader} {leaves : List Leaf} {s : Store} {d : Draft} {leaf : Leaf}
  {g : Group}

/-- One more leaf has one more group, which stands for it. -/
theorem Draft.stands_add (laid : Laid o s leaves d) (leaf : Leaf) :
    ∃ g, (d.add o leaf).groups = d.groups ++ [g] ∧ Stands o s leaf g := by
  cases leaf with
  | text value color style =>
    rw [Draft.add]
    split
    · exact ⟨_, rfl, .text (List.forall_mem_nil _)⟩
    · exact ⟨_, rfl, .text (List.forall_mem_singleton.2 ⟨_, rfl⟩)⟩
  | emote id color style =>
    refine ⟨_, rfl, .emote rfl ?_⟩
    rw [shown, ← laid.found id]
    rfl

/-- Every leaf has its group. -/
theorem Draft.stands_ofLeaves (o : Options) (leaves : List Leaf) (s : Store) :
    List.Forall₂ (Stands o s) leaves (ofLeaves o leaves s).groups := by
  refine ofLeaves_induction (P := fun leaves d => List.Forall₂ (Stands o s) leaves d.groups) .nil
    (fun leaves leaf before => ?_) leaves
  obtain ⟨g, hgroups, stands⟩ := stands_add (laid_ofLeaves o leaves s) leaf
  exact hgroups ▸ List.rel_append before (.cons stands .nil)

/-- **The place of a leaf** has its group. -/
theorem stands_of_leaf (o : Options) (loader : Loader) (s : Store) {i : Nat}
    (hleaf : leaves[i]? = some leaf) :
    ∃ g, (ofLeaves o loader leaves s).1.row.child? i = some g ∧ Stands o s leaf g := by
  have stands := Draft.stands_ofLeaves o leaves s
  obtain ⟨hlt, rfl⟩ := List.getElem?_eq_some_iff.1 hleaf
  have hlt' : i < (Draft.ofLeaves o leaves s).groups.length := stands.length_eq ▸ hlt
  exact ⟨_, (Draft.child?_row _ i).trans (List.getElem?_eq_getElem hlt'), stands.get hlt hlt'⟩

/-- There is no other place. -/
theorem stands_of_child? {i : Nat} (hg : (ofLeaves o loader leaves s).1.row.child? i = some g) :
    ∃ leaf, leaves[i]? = some leaf ∧ Stands o s leaf g := by
  cases hleaf : leaves[i]? with
  | none =>
    have hge : (ofLeaves o loader leaves s).1.row.children.length ≤ i :=
      (length_children rfl).trans_le (List.getElem?_eq_none_iff.1 hleaf)
    rw [Group.child?, List.getElem?_eq_none hge] at hg
    cases hg
  | some leaf =>
    obtain ⟨g', hg', stands⟩ := stands_of_leaf o loader s hleaf
    rw [hg] at hg'
    cases hg'
    exact ⟨leaf, rfl, stands⟩

/-- The group of an emote without a picture. -/
theorem Stands.isPlaceholder {id color : String} {style : Style}
    (stands : Stands o s (.emote id color style) g)
    (lacks : s.textures.get? (o.emotes.urlFor id) = none) :
    g.name = "emote:" ++ id ∧ g.IsPlaceholder := by
  cases stands with
  | emote name children =>
    have emoteShown := emoteShown_of_children children
    rw [lacks] at emoteShown
    refine ⟨name, emoteShown.shape.resolve_right fun stack => ?_⟩
    cases emoteShown.stack_iff.1 stack

/-- A group that shows a placeholder is that of an emote without a picture. -/
theorem Stands.exists_emote (stands : Stands o s leaf g) (holds : g.HoldsPlaceholder) :
    ∃ id color style, leaf = .emote id color style ∧
      s.textures.get? (o.emotes.urlFor id) = none := by
  cases stands with
  | text meshes =>
    obtain ⟨sprite, hsprite, -⟩ := holds
    obtain ⟨c, hc, heq⟩ := List.mem_filterMap.1 hsprite
    obtain ⟨m, rfl⟩ := meshes c hc
    cases heq
  | @emote id color style g name children =>
    refine ⟨id, color, style, rfl, ?_⟩
    by_contra hsome
    have stack := (emoteShown_of_children children).stack_iff.2 (Option.isSome_iff_ne_none.2 hsome)
    exact stack.not_holdsPlaceholder holds

end Stands

/-! ### The plan -/

/-- A load of the store's generation that waits in the places of all the emotes with its
address, in order, and is made in the name of the first of them. -/
structure Planned (o : Options) (leaves : List Leaf) (s : Store) (e : Errand) : Prop where
  generation : e.generation = s.generation
  ascending : e.request.slots.Pairwise (· < ·)
  mem_slots : ∀ i, i ∈ e.request.slots ↔ ∃ id color style,
    leaves[i]? = some (.emote id color style) ∧ o.emotes.urlFor id = e.request.url
  first : ∃ i rest color style,
    e.request.slots = i :: rest ∧ leaves[i]? = some (.emote e.request.emoteId color style)

section Plan

variable {o : Options} {loader : Loader} {leaves : List Leaf} {s : Store} {e : Errand}

/-- No two loads of a heading have one address. -/
theorem nodup_url_ofLeaves (o : Options) (loader : Loader) (leaves : List Leaf) (s : Store) :
    (((ofLeaves o loader leaves s).1.loads.map (·.errand)).map (·.request.url)).Nodup := by
  rw [List.Nodup, List.pairwise_map]
  exact (apart_ofLeaves o loader leaves s).imp Errand.Apart.url

/-- Loads with one address are one load. -/
theorem eq_of_url {f : Errand}
    (he : e ∈ (ofLeaves o loader leaves s).1.loads.map (·.errand))
    (hf : f ∈ (ofLeaves o loader leaves s).1.loads.map (·.errand))
    (url : e.request.url = f.request.url) : e = f :=
  List.inj_on_of_nodup_map (nodup_url_ofLeaves o loader leaves s) he hf url

/-- The loads of a heading are for the missing pictures. -/
theorem exists_load_iff {url : String} :
    (∃ e ∈ (ofLeaves o loader leaves s).1.loads.map (·.errand), e.request.url = url) ↔
      url ∈ missing o leaves s := by
  rw [mem_missing]
  constructor
  · rintro ⟨e, he, rfl⟩
    obtain ⟨i, hi⟩ := List.exists_mem_of_ne_nil _
      (Draft.slots_ne_nil_ofLeaves o leaves s _ (request_mem he))
    obtain ⟨id, color, style, hleaf, hurl, lacks⟩ := emote_of_slot he hi
    exact ⟨⟨id, color, style, List.mem_of_getElem? hleaf, hurl.symm⟩, lacks⟩
  · rintro ⟨⟨id, color, style, hmem, rfl⟩, lacks⟩
    obtain ⟨i, hleaf⟩ := List.mem_iff_getElem?.1 hmem
    obtain ⟨e, he, hurl, -⟩ := exists_load_of_emote loader hleaf lacks
    exact ⟨e, he, hurl⟩

/-- **What a load waits for.** A place waits for one load only, so every emote with the
address of a load waits for that very load. -/
theorem planned_ofLeaves (he : e ∈ (ofLeaves o loader leaves s).1.loads.map (·.errand)) :
    Planned o leaves s e := by
  obtain ⟨hascending, hfirst⟩ := Draft.ordered_ofLeaves o leaves s _ (request_mem he)
  have lacks : s.textures.get? e.request.url = none :=
    (mem_missing.1 (exists_load_iff.1 ⟨e, he, rfl⟩)).2
  refine ⟨generation_of_mem he, hascending, fun i => ⟨fun hi => ?_, ?_⟩, hfirst⟩
  · obtain ⟨id, color, style, hleaf, hurl, -⟩ := emote_of_slot he hi
    exact ⟨id, color, style, hleaf, hurl.symm⟩
  · rintro ⟨id, color, style, hleaf, hurl⟩
    obtain ⟨f, hf, hfurl, hi⟩ := exists_load_of_emote loader hleaf (hurl ▸ lacks)
    exact eq_of_url hf he (hfurl.trans hurl) ▸ hi

/-- The place of an emote that waits shows a placeholder. -/
theorem isPlaceholder_of_slot (he : e ∈ (ofLeaves o loader leaves s).1.loads.map (·.errand))
    {i : Nat} (hi : i ∈ e.request.slots) : ∃ id color style g,
      leaves[i]? = some (.emote id color style) ∧
        (ofLeaves o loader leaves s).1.row.child? i = some g ∧ g.name = "emote:" ++ id ∧
          g.IsPlaceholder := by
  obtain ⟨id, color, style, hleaf, hurl, lacks⟩ := emote_of_slot he hi
  obtain ⟨g, hg, stands⟩ := stands_of_leaf o loader s hleaf
  exact ⟨id, color, style, g, hleaf, hg, stands.isPlaceholder (hurl ▸ lacks)⟩

/-- The places that wait are those of the placeholders. -/
theorem exists_slot_iff {i : Nat} :
    (∃ e ∈ (ofLeaves o loader leaves s).1.loads.map (·.errand), i ∈ e.request.slots) ↔
      ∃ g, (ofLeaves o loader leaves s).1.row.child? i = some g ∧ g.HoldsPlaceholder := by
  constructor
  · rintro ⟨e, he, hi⟩
    obtain ⟨id, color, style, g, -, hg, -, place⟩ := isPlaceholder_of_slot he hi
    exact ⟨g, hg, place.holdsPlaceholder⟩
  · rintro ⟨g, hg, holds⟩
    obtain ⟨leaf, hleaf, stands⟩ := stands_of_child? hg
    obtain ⟨id, color, style, rfl, lacks⟩ := stands.exists_emote holds
    obtain ⟨e, he, -, hi⟩ := exists_load_of_emote loader hleaf lacks
    exact ⟨e, he, hi⟩

/-- There are as many loads as there are missing pictures. -/
theorem pending_ofLeaves (o : Options) (loader : Loader) (leaves : List Leaf) (s : Store) :
    (ofLeaves o loader leaves s).1.pending = (missing o leaves s).card := by
  have hurls : (((ofLeaves o loader leaves s).1.loads.map (·.errand)).map
      (·.request.url)).toFinset = missing o leaves s := by
    ext url
    rw [List.mem_toFinset, List.mem_map]
    exact exists_load_iff
  rw [← hurls, List.toFinset_card_of_nodup (nodup_url_ofLeaves o loader leaves s),
    List.length_map, List.length_map]
  rfl

/-- A store has as many more loads under way as the heading waits for. -/
theorem pendingLoads_ofLeaves (o : Options) (loader : Loader) (leaves : List Leaf) (s : Store) :
    (ofLeaves o loader leaves s).2.2.pendingLoads =
      s.pendingLoads + (ofLeaves o loader leaves s).1.pending := by
  have hinFlight : (ofLeaves o loader leaves s).2.2.inFlight =
      (List.range' s.nextLoad (Draft.ofLeaves o leaves s).requests.length).reverse ++ s.inFlight :=
    congrArg Store.Ledger.inFlight (ledger_ofLeaves o loader leaves s)
  have hlength := length_errands_ofLeaves o loader leaves s
  rw [List.length_map] at hlength
  rw [Store.pendingLoads, hinFlight, List.length_append, List.length_reverse, List.length_range',
    ← hlength, Nat.add_comm]
  rfl

end Plan

/-- **The loads of a heading are planned exactly.** Some leaves are set over any store. Then
there is a load to an address if and only if an emote has it and the store has no picture
for it, and only one. Each waits as it is `Planned`, no two in one place; together they wait
in the places that show a placeholder, each the place of an emote. The heading waits for as
many loads as there are such addresses, and so many more are under way. -/
theorem plan_exact (o : Options) (loader : Loader) (leaves : List Leaf) (s : Store) :
    let set := ofLeaves o loader leaves s
    let errands := set.1.loads.map (·.errand)
    (∀ url, (∃ e ∈ errands, e.request.url = url) ↔
        (∃ id color style, Leaf.emote id color style ∈ leaves ∧ o.emotes.urlFor id = url) ∧
          s.textures.get? url = none) ∧
      (errands.map (·.request.url)).Nodup ∧
      (∀ e ∈ errands, Planned o leaves s e) ∧
      (errands.Pairwise fun e f => e.request.slots.Disjoint f.request.slots) ∧
      (∀ i, (∃ e ∈ errands, i ∈ e.request.slots) ↔
        ∃ g, set.1.row.child? i = some g ∧ g.HoldsPlaceholder) ∧
      (∀ e ∈ errands, ∀ i ∈ e.request.slots, ∃ id color style g,
        leaves[i]? = some (.emote id color style) ∧ set.1.row.child? i = some g ∧
          g.name = "emote:" ++ id ∧ g.IsPlaceholder) ∧
      set.1.pending = (missing o leaves s).card ∧
      set.2.2.pendingLoads = s.pendingLoads + (missing o leaves s).card := by
  refine ⟨fun url => exists_load_iff.trans mem_missing, nodup_url_ofLeaves o loader leaves s,
    fun e he => planned_ofLeaves he, ?_, fun i => exists_slot_iff,
    fun e he i hi => isPlaceholder_of_slot he hi, pending_ofLeaves o loader leaves s, ?_⟩
  · refine (apart_ofLeaves o loader leaves s).imp fun apart i hi hi' => ?_
    exact apart.slots i hi hi'
  · rw [pendingLoads_ofLeaves, pending_ofLeaves]

end Heading

end Marquee
