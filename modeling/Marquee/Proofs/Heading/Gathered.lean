import Marquee.Proofs.Config.Address
import Marquee.Proofs.Heading.Plan

/-!
# Loads and Emotes

The loads of a heading are told apart by their addresses. What emotes a load is for follows from
what their addresses tell: with a mark in the template, every load is for one emote, wherever it
stands, and every emote that the store has no picture of has one load. Without a mark there is one
address, and so one load at most, which all emotes wait for.

## Main statements

* `url_eq_urlFor` — a load goes to the address of the emote that it is made in the name of;
* `gathered_ofLeaves` — with a mark, it waits in the places of this emote;
* `loads_by_emote` — which emotes the loads of a heading are for.
-/

namespace Marquee.Heading

open Fetch Markup Scene

/-- A load for a missing picture that waits in the places of the emote it is made in the name of,
from left to right, where a placeholder of it stands. -/
structure Gathered (o : Options) (leaves : List Leaf) (s : Store) (row : Group) (e : Errand) :
    Prop where
  url : e.request.url = o.emotes.urlFor e.request.emoteId
  lacks : s.textures.get? e.request.url = none
  ascending : e.request.slots.Pairwise (· < ·)
  mem_slots : ∀ i, i ∈ e.request.slots ↔
    ∃ color style, leaves[i]? = some (.emote e.request.emoteId color style)
  placeholder : ∀ i ∈ e.request.slots,
    ∃ g, row.child? i = some g ∧ g.name = "emote:" ++ e.request.emoteId ∧ g.IsPlaceholder

section Gathered

variable {o : Options} {loader : Loader} {leaves : List Leaf} {s : Store} {e : Errand}

/-- A load is made in the name of an emote of the heading, to the address of this emote. -/
theorem url_eq_urlFor (he : e ∈ (ofLeaves o loader leaves s).1.loads.map (·.errand)) :
    e.request.url = o.emotes.urlFor e.request.emoteId ∧
      ∃ color style, Leaf.emote e.request.emoteId color style ∈ leaves := by
  have planned := planned_ofLeaves he
  obtain ⟨i, rest, color, style, hslots, hleaf⟩ := planned.first
  have hi : i ∈ e.request.slots := hslots ▸ List.mem_cons_self
  obtain ⟨id, color', style', hleaf', hurl⟩ := (planned.mem_slots i).1 hi
  rw [hleaf] at hleaf'
  cases hleaf'
  exact ⟨hurl.symm, color, style, List.mem_of_getElem? hleaf⟩

/-- **With a mark**, a load waits in the places of one emote: another emote in one of its places
would have its address. -/
theorem gathered_ofLeaves (marked : o.emotes.Marked)
    (he : e ∈ (ofLeaves o loader leaves s).1.loads.map (·.errand)) :
    Gathered o leaves s (ofLeaves o loader leaves s).1.row e := by
  have planned := planned_ofLeaves he
  obtain ⟨hurl, -⟩ := url_eq_urlFor he
  have same {id : String} (hid : o.emotes.urlFor id = e.request.url) : id = e.request.emoteId :=
    EmoteSettings.urlFor_injective marked (hid.trans hurl)
  refine ⟨hurl, (mem_missing.1 (exists_load_iff.1 ⟨e, he, rfl⟩)).2, planned.ascending,
    fun i => ⟨fun hi => ?_, ?_⟩, fun i hi => ?_⟩
  · obtain ⟨id, color, style, hleaf, hid⟩ := (planned.mem_slots i).1 hi
    obtain rfl := same hid
    exact ⟨color, style, hleaf⟩
  · rintro ⟨color, style, hleaf⟩
    exact (planned.mem_slots i).2 ⟨_, color, style, hleaf, hurl.symm⟩
  · obtain ⟨id, color, style, hleaf, hid⟩ := (planned.mem_slots i).1 hi
    obtain rfl := same hid
    obtain ⟨id, color', style', g, hleaf', hg⟩ := isPlaceholder_of_slot he hi
    rw [hleaf] at hleaf'
    cases hleaf'
    exact ⟨g, hg⟩

/-- The loads of a heading are made in the names of different emotes. -/
theorem nodup_emoteId_ofLeaves (o : Options) (loader : Loader) (leaves : List Leaf) (s : Store) :
    (((ofLeaves o loader leaves s).1.loads.map (·.errand)).map (·.request.emoteId)).Nodup := by
  rw [List.Nodup, List.pairwise_map]
  refine (apart_ofLeaves o loader leaves s).imp_of_mem fun he hf apart heq => apart.url ?_
  rw [(url_eq_urlFor he).1, (url_eq_urlFor hf).1, heq]

/-- **With a mark**, the emotes that have a load are those without a picture. -/
theorem mem_emoteIds_iff (marked : o.emotes.Marked) {id : String} :
    id ∈ ((ofLeaves o loader leaves s).1.loads.map (·.errand)).map (·.request.emoteId) ↔
      (∃ color style, Leaf.emote id color style ∈ leaves) ∧
        s.textures.get? (o.emotes.urlFor id) = none := by
  constructor
  · intro hid
    obtain ⟨e, he, rfl⟩ := List.mem_map.1 hid
    obtain ⟨hurl, hleaf⟩ := url_eq_urlFor he
    exact ⟨hleaf, hurl ▸ (gathered_ofLeaves marked he).lacks⟩
  · rintro ⟨⟨color, style, hleaf⟩, lacks⟩
    obtain ⟨e, he, hurl⟩ := exists_load_iff.2 (mem_missing.2 ⟨⟨id, color, style, hleaf, rfl⟩, lacks⟩)
    obtain rfl := EmoteSettings.urlFor_injective marked ((url_eq_urlFor he).1.symm.trans hurl)
    exact List.mem_map_of_mem he

/-- **Without a mark**, there is one load at most. -/
theorem pending_le_one (plain : ¬ o.emotes.Marked) : (ofLeaves o loader leaves s).1.pending ≤ 1 := by
  have single {url : String} (hurl : url ∈ missing o leaves s) : url = o.emotes.urlTemplate := by
    obtain ⟨⟨id, -, -, -, rfl⟩, -⟩ := mem_missing.1 hurl
    exact EmoteSettings.urlFor_of_not_marked plain id
  rw [pending_ofLeaves, Finset.card_le_one]
  exact fun url hurl url' hurl' => (single hurl).trans (single hurl').symm

end Gathered

/-- **Emotes share a load only if they are the same.** Let the template have a mark. Then emotes
with one address are one emote. Each load of a heading just set waits in the places of one emote
that the store has no picture of, and in all of them (`Gathered`); no two are for the same emote,
and every emote that the store has no picture of has its load. Without a mark all emotes have one
address, and there is one load at most, which all emotes wait for. -/
theorem loads_by_emote (o : Options) (loader : Loader) (leaves : List Leaf) (s : Store) :
    let set := ofLeaves o loader leaves s
    let errands := set.1.loads.map (·.errand)
    (o.emotes.Marked →
      (∀ id id', o.emotes.urlFor id = o.emotes.urlFor id' → id = id') ∧
      (∀ e ∈ errands, Gathered o leaves s set.1.row e) ∧
      (errands.map (·.request.emoteId)).Nodup ∧
      ∀ id, id ∈ errands.map (·.request.emoteId) ↔
        (∃ color style, Leaf.emote id color style ∈ leaves) ∧
          s.textures.get? (o.emotes.urlFor id) = none) ∧
    (¬ o.emotes.Marked →
      (∀ id, o.emotes.urlFor id = o.emotes.urlTemplate) ∧
      set.1.pending ≤ 1 ∧
      ∀ e ∈ errands, ∀ i, i ∈ e.request.slots ↔
        ∃ id color style, leaves[i]? = some (.emote id color style)) := by
  intro set errands
  constructor
  · intro marked
    exact ⟨fun id id' heq => EmoteSettings.urlFor_injective marked heq,
      fun e he => gathered_ofLeaves marked he, nodup_emoteId_ofLeaves o loader leaves s,
      fun id => mem_emoteIds_iff marked⟩
  · intro plain
    have template (id : String) := EmoteSettings.urlFor_of_not_marked plain id
    refine ⟨template, pending_le_one plain, fun e he i => ?_⟩
    have hurl : e.request.url = o.emotes.urlTemplate := (url_eq_urlFor he).1.trans (template _)
    rw [(planned_ofLeaves he).mem_slots i]
    refine exists_congr fun id => exists_congr fun color => exists_congr fun style => ?_
    rw [template, hurl, and_iff_left rfl]

/-- Emotes whose numbers are ones only, between which there is a one in the template as well; and
the same emotes with a mark that is not closed. -/
theorem ones_kept_apart :
    let leaves : List Leaf := [.emote "1" "RED" .regular, .text "1" "RED" .regular,
      .emote "11" "RED" .bold, .emote "1" "WHITE" .regular]
    let o : Options := { Options.inkless with emotes := { urlTemplate := "\x7bid\x7d1\x7bid\x7d" } }
    let plain : Options := { Options.inkless with emotes := { urlTemplate := "\x7bid" } }
    let set := (ofLeaves o .offline leaves {}).1
    let errands := set.loads.map (·.errand)
    o.emotes.Marked ∧
      errands.map (fun e => (e.request.emoteId, e.request.slots)) = [("1", [0, 3]), ("11", [2])] ∧
      (∀ e ∈ errands, Gathered o leaves {} set.row e) ∧
      ¬ plain.emotes.Marked ∧ (ofLeaves plain .offline leaves {}).1.pending ≤ 1 := by
  intro leaves o plain set errands
  have marked : o.emotes.Marked := by decide +kernel
  have unmarked : ¬ plain.emotes.Marked := by decide +kernel
  obtain ⟨-, gathered, -⟩ := (loads_by_emote o .offline leaves {}).1 marked
  obtain ⟨-, single, -⟩ := (loads_by_emote plain .offline leaves {}).2 unmarked
  exact ⟨marked, by decide +kernel, gathered, unmarked, single⟩

end Marquee.Heading
