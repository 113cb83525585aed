import Marquee.Proofs.Heading.Row
import Mathlib.Data.String.Basic

/-!
# The Requests of a Row

A row asks for each picture once. Its requests stand in the order of their addresses, so no
two are for the same one; and a place that waits is that of an emote, which has one address,
so no two requests name the same place.

## Main statements

* `Request.ascending_ask` — asking keeps the addresses in strict order;
* `Draft.ascending_ofLeaves` — the requests of a row are in strict order;
* `Draft.asked_ofLeaves` — an emote without a picture waits for its address;
* `apart_ofLeaves` — no two loads of a heading share their address or a place.
-/

namespace Marquee

open Fetch Markup

namespace Fetch

/-- Requests in the order of their addresses, no address twice. -/
def Request.Ascending (rs : List Request) : Prop := rs.Pairwise fun p q => p.url < q.url

namespace Request

variable {url id : String} {slot : Nat} {rs : List Request}

/-- Asking for a picture brings no address but that of the picture. -/
theorem url_of_mem_ask {r : Request} (hr : r ∈ ask url id slot rs) :
    r.url = url ∨ ∃ q ∈ rs, q.url = r.url := by
  rcases mem_ask hr with rfl | ⟨q, hq, hurl, rfl⟩ | hr
  · exact .inl rfl
  · exact .inl hurl
  · exact .inr ⟨r, hr, rfl⟩

/-- **Asking** keeps requests in the order of their addresses. -/
theorem ascending_ask (ascending : Ascending rs) : Ascending (ask url id slot rs) := by
  fun_induction ask url id slot rs with
  | case1 => exact List.pairwise_singleton _ _
  | case2 r rs heq => exact List.pairwise_cons.2 (List.pairwise_cons.1 ascending)
  | case3 r rs hne hlt =>
    refine List.pairwise_cons.2 ⟨List.forall_mem_cons.2 ⟨hlt, fun q hq => ?_⟩, ascending⟩
    exact hlt.trans ((List.pairwise_cons.1 ascending).1 q hq)
  | case4 r rs hne hle ih =>
    obtain ⟨hfirst, hrest⟩ := List.pairwise_cons.1 ascending
    refine List.pairwise_cons.2 ⟨fun q hq => ?_, ih hrest⟩
    rcases url_of_mem_ask hq with heq | ⟨p, hp, heq⟩
    · rw [heq]
      exact lt_of_le_of_ne (not_lt.1 hle) (Ne.symm hne)
    · exact heq ▸ hfirst p hp

/-- Asking for a picture makes the place wait for it. -/
theorem exists_slot_ask : ∃ r ∈ ask url id slot rs, r.url = url ∧ slot ∈ r.slots := by
  fun_induction ask url id slot rs with
  | case1 => exact ⟨_, List.mem_cons_self, rfl, List.mem_cons_self⟩
  | case2 r rs heq =>
    exact ⟨_, List.mem_cons_self, heq.symm, List.mem_append_right _ List.mem_cons_self⟩
  | case3 r rs hne hlt => exact ⟨_, List.mem_cons_self, rfl, List.mem_cons_self⟩
  | case4 r rs hne hle ih =>
    obtain ⟨q, hq, rest⟩ := ih
    exact ⟨q, List.mem_cons_of_mem _ hq, rest⟩

/-- A place that waits goes on waiting for its address. -/
theorem exists_slot_ask_of_mem {r : Request} {i : Nat} (hr : r ∈ rs) (hi : i ∈ r.slots) :
    ∃ q ∈ ask url id slot rs, q.url = r.url ∧ i ∈ q.slots := by
  fun_induction ask url id slot rs with
  | case1 => cases hr
  | case2 q rs heq =>
    rcases List.mem_cons.1 hr with rfl | hr
    · exact ⟨_, List.mem_cons_self, rfl, List.mem_append_left _ hi⟩
    · exact ⟨r, List.mem_cons_of_mem _ hr, rfl, hi⟩
  | case3 q rs hne hlt => exact ⟨r, List.mem_cons_of_mem _ hr, rfl, hi⟩
  | case4 q rs hne hle ih =>
    rcases List.mem_cons.1 hr with rfl | hr
    · exact ⟨r, List.mem_cons_self, rfl, hi⟩
    · obtain ⟨p, hp, rest⟩ := ih hr
      exact ⟨p, List.mem_cons_of_mem _ hp, rest⟩

/-- No request is made without a place that waits. -/
theorem slots_ne_nil_ask (filled : ∀ r ∈ rs, r.slots ≠ []) :
    ∀ r ∈ ask url id slot rs, r.slots ≠ [] := by
  intro r hr
  rcases mem_ask hr with rfl | ⟨q, hq, -, rfl⟩ | hr
  · exact List.cons_ne_nil _ _
  · exact List.append_ne_nil_of_right_ne_nil _ (List.cons_ne_nil _ _)
  · exact filled r hr

end Request

/-- Two errands with different addresses and without a common place. -/
structure Errand.Apart (e f : Errand) : Prop where
  url : e.request.url ≠ f.request.url
  slots : ∀ i ∈ e.request.slots, i ∉ f.request.slots

/-- Two loads are apart from each other. -/
theorem Errand.Apart.symm {e f : Errand} (apart : e.Apart f) : f.Apart e :=
  ⟨apart.url.symm, fun i hf he => apart.slots i he hf⟩

end Fetch

namespace Heading

/-- One more leaf keeps the requests in the order in which they were made. -/
theorem Draft.ascending_add {d : Draft} (ascending : Request.Ascending d.requests) (o : Options)
    (leaf : Leaf) : Request.Ascending (d.add o leaf).requests := by
  cases leaf with
  | text value color style =>
    rw [requests_add_text]
    exact ascending
  | emote id color style =>
    rw [add, emote]
    dsimp only
    split
    · exact ascending
    · exact Request.ascending_ask ascending

/-- The requests of a row stand in the order of their addresses. -/
theorem Draft.ascending_ofLeaves (o : Options) (leaves : List Leaf) (s : Store) :
    Request.Ascending (ofLeaves o leaves s).requests :=
  ofLeaves_induction (P := fun _ d => Request.Ascending d.requests) List.Pairwise.nil
    (fun _ leaf ascending => ascending_add ascending o leaf) leaves

/-! ### Emotes that wait -/

/-- Every emote whose picture a store lacks waits for its address. -/
def Draft.Asked (o : Options) (s : Store) (leaves : List Leaf) (d : Draft) : Prop :=
  ∀ (i : Nat) id color style, leaves[i]? = some (.emote id color style) →
    s.textures.get? (o.emotes.urlFor id) = none →
      ∃ r ∈ d.requests, r.url = o.emotes.urlFor id ∧ i ∈ r.slots

section Asked

variable {o : Options} {s : Store} {leaves : List Leaf} {d : Draft}

/-- It is enough that no place stops waiting, and that the new one waits if it has to. -/
theorem Draft.Asked.snoc (asked : Asked o s leaves d) {leaf : Leaf} {d' : Draft}
    (old : ∀ r ∈ d.requests, ∀ i ∈ r.slots, ∃ q ∈ d'.requests, q.url = r.url ∧ i ∈ q.slots)
    (new : ∀ id color style, leaf = .emote id color style →
      s.textures.get? (o.emotes.urlFor id) = none →
        ∃ r ∈ d'.requests, r.url = o.emotes.urlFor id ∧ leaves.length ∈ r.slots) :
    Asked o s (leaves ++ [leaf]) d' := by
  intro i id color style hleaf lacks
  rcases getElem?_concat_cases hleaf with hold | ⟨rfl, hnew⟩
  · obtain ⟨r, hr, hurl, hi⟩ := asked i id color style hold lacks
    obtain ⟨q, hq, hq', hi'⟩ := old r hr i hi
    exact ⟨q, hq, hq'.trans hurl, hi'⟩
  · exact new id color style hnew.symm lacks

/-- **One more leaf** is asked for if it is an emote without a picture. -/
theorem Draft.Asked.add (asked : Asked o s leaves d) (laid : Laid o s leaves d) (leaf : Leaf) :
    Asked o s (leaves ++ [leaf]) (d.add o leaf) := by
  cases leaf with
  | text value color style =>
    refine asked.snoc (fun r hr i hi => ⟨r, ?_, rfl, hi⟩) ?_
    · rw [requests_add_text]
      exact hr
    · intro id color' style' heq
      cases heq
  | emote id color style =>
    refine asked.snoc (fun r hr i hi => ?_) ?_
    · rw [Draft.add, laid.requests_emote]
      split
      · exact ⟨r, hr, rfl, hi⟩
      · exact Request.exists_slot_ask_of_mem hr hi
    · intro id' color' style' heq lacks
      cases heq
      rw [Draft.add, laid.requests_emote, lacks, ← laid.length]
      exact Request.exists_slot_ask

/-- **Who waits.** -/
theorem Draft.asked_ofLeaves (o : Options) (leaves : List Leaf) (s : Store) :
    Asked o s leaves (ofLeaves o leaves s) := by
  refine ofLeaves_induction ?_ (fun leaves leaf asked => ?_) leaves
  · intro i id color style hleaf
    cases hleaf
  · exact asked.add (laid_ofLeaves o leaves s) leaf

/-- Such an emote waits for a load of the heading. -/
theorem exists_load_of_emote (loader : Loader) {i : Nat} {id color : String} {style : Style}
    (hleaf : leaves[i]? = some (.emote id color style))
    (lacks : s.textures.get? (o.emotes.urlFor id) = none) :
    ∃ e ∈ (ofLeaves o loader leaves s).1.loads.map (·.errand),
      e.request.url = o.emotes.urlFor id ∧ i ∈ e.request.slots := by
  obtain ⟨r, hr, hrest⟩ := Draft.asked_ofLeaves o leaves s i id color style hleaf lacks
  obtain ⟨e, he, rfl⟩ := exists_load_of_request loader hr
  exact ⟨e, he, hrest⟩

/-- One more leaf leaves no request without a place. -/
theorem Draft.slots_ne_nil_add (filled : ∀ r ∈ d.requests, r.slots ≠ []) (leaf : Leaf) :
    ∀ r ∈ (d.add o leaf).requests, r.slots ≠ [] := by
  cases leaf with
  | text value color style =>
    rw [requests_add_text]
    exact filled
  | emote id color style =>
    rw [Draft.add, Draft.emote]
    dsimp only
    split
    · exact filled
    · exact Request.slots_ne_nil_ask filled

/-- No request of a row is without a place that waits. -/
theorem Draft.slots_ne_nil_ofLeaves (o : Options) (leaves : List Leaf) (s : Store) :
    ∀ r ∈ (ofLeaves o leaves s).requests, r.slots ≠ [] :=
  ofLeaves_induction (P := fun _ d => ∀ r ∈ d.requests, r.slots ≠ []) (List.forall_mem_nil _)
    (fun _ leaf filled => slots_ne_nil_add filled leaf) leaves

/-- A request of a row is for the picture of one of its emotes. -/
theorem Draft.exists_emote_of_request {r : Request} (hr : r ∈ (ofLeaves o leaves s).requests) :
    ∃ (i : Nat) (id color : String) (style : Style),
      leaves[i]? = some (.emote id color style) ∧ r.url = o.emotes.urlFor id := by
  obtain ⟨i, hi⟩ := List.exists_mem_of_ne_nil _ (slots_ne_nil_ofLeaves o leaves s r hr)
  obtain ⟨id, color, style, hleaf, hurl, -⟩ := (laid_ofLeaves o leaves s).waits r hr i hi
  exact ⟨i, id, color, style, hleaf, hurl⟩

end Asked

/-- **The loads of a heading** are for different addresses and different places, as a place that
waits has one address. -/
theorem apart_ofLeaves (o : Options) (loader : Loader) (leaves : List Leaf) (s : Store) :
    ((ofLeaves o loader leaves s).1.loads.map (·.errand)).Pairwise Errand.Apart := by
  have ascending := Draft.ascending_ofLeaves o leaves s
  rw [← map_request_ofLeaves o loader, Request.Ascending, List.pairwise_map] at ascending
  refine ascending.imp_of_mem fun he hf hlt => ⟨ne_of_lt hlt, fun i hi hi' => ?_⟩
  obtain ⟨id, color, style, hleaf, hurl, -⟩ := emote_of_slot he hi
  obtain ⟨id', color', style', hleaf', hurl', -⟩ := emote_of_slot hf hi'
  rw [hleaf] at hleaf'
  cases hleaf'
  exact ne_of_lt hlt (hurl.trans hurl'.symm)

end Heading

end Marquee
