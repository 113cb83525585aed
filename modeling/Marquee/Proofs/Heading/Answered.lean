import Marquee.Proofs.Stage.Completion
import Marquee.Proofs.Stage.Landing

/-!
# Rows After All Answers

A heading is set over a store without pictures, and a loader answers for each of its emotes,
with a picture or a failure. Once all answers are applied, in whatever order they come, the
places of the emotes that got a picture are filled with it, and that is all the difference
they make: a failure leaves a place as it was, and no load reaches any other place.

## Main statements

* `getElem?_children_applyAll` — what any loads make of a place, if all that reach it bring
  the same picture or none;
* `settled_heading` — the heading in the end, for any mixture of pictures and failures;
* `exists_picture_of_ne` — where it differs from the one that was set, a picture came;
* `answered_of_fails` — it does not differ if no picture comes.
-/

namespace Marquee

open Fetch Markup Scene Store

namespace Heading

/-! ### One place -/

/-- A node with a picture in it, if there is one. -/
def Stack.depict (stack : Stack) (picture : Option Texture) (n : Node) : Node :=
  match picture with
  | some t => stack.fillIn t n
  | none => n

/-- A picture that is depicted already is not depicted twice. -/
theorem Stack.depict_depict (stack : Stack) (picture : Option Texture) (n : Node) :
    stack.depict picture (stack.depict picture n) = stack.depict picture n := by
  cases picture with
  | some t => exact stack.fillIn_fillIn t t n
  | none => rfl

section Apply

variable {d : Delivery} {ds : List Delivery} {h : Heading} {s : Store} {i : Nat}

/-- What one load makes of a place. -/
theorem getElem?_children_apply :
    (h.apply d s).2.2.1.row.children[i]? =
      if i ∈ d.errand.request.slots then h.row.children[i]?.map (h.stack.depict (picture? d s))
      else h.row.children[i]? := by
  rcases hp : picture? d s with _ | t
  · have hid : h.stack.depict none = id := rfl
    rw [apply_of_picture?_none hp, hid, Option.map_id, id_eq, ite_self]
  · rw [apply_of_picture?_some hp]
    exact getElem?_children_swap h.stack t d.errand.request.slots h.row i

/-- **Any loads** that reach a place with the same picture, or with none, leave that picture
there. -/
theorem getElem?_children_applyAll {picture : Option Texture}
    (same : ∀ d ∈ ds, i ∈ d.errand.request.slots → picture? d s = picture) :
    (applyAll ds h s).2.1.row.children[i]? =
      if ∃ d ∈ ds, i ∈ d.errand.request.slots then
        h.row.children[i]?.map (h.stack.depict picture)
      else h.row.children[i]? := by
  induction ds generalizing h s with
  | nil => simp [applyAll]
  | cons d ds ih =>
    obtain ⟨hfirst, hrest⟩ := List.forall_mem_cons.1 same
    have hstack : (h.apply d s).2.2.1.stack = h.stack := by rw [apply_heading]
    have hpicture : ∀ e, picture? e (h.apply d s).2.2.2 = picture? e s := fun e =>
      picture?_congr generation_apply
    rw [applyAll_cons, ih fun e he hi => (hpicture e).trans (hrest e he hi),
      getElem?_children_apply, hstack]
    by_cases hslot : i ∈ d.errand.request.slots
    · rw [hfirst hslot]
      simp [hslot, Function.comp_def, Stack.depict_depict]
    · simp [hslot]

/-- Loads touch the row and nothing else of a heading. -/
theorem applyAll_heading (ds : List Delivery) (h : Heading) (s : Store) :
    (applyAll ds h s).2.1 = { h with row := (applyAll ds h s).2.1.row } := by
  induction ds generalizing h s with
  | nil => rfl
  | cons d ds ih =>
    rw [applyAll_cons, ih, apply_heading]

/-- Of the row they touch the children, and leave it as many. -/
theorem applyAll_row (ds : List Delivery) (h : Heading) (s : Store) :
    (applyAll ds h s).2.1.row.name = h.row.name ∧
      (applyAll ds h s).2.1.row.transform = h.row.transform ∧
      (applyAll ds h s).2.1.row.children.length = h.row.children.length := by
  induction ds generalizing h s with
  | nil => exact ⟨rfl, rfl, rfl⟩
  | cons d ds ih =>
    obtain ⟨hname, htransform, hlength⟩ := ih (h.apply d s).2.2.1 (h.apply d s).2.2.2
    have life : Life h [(d, (h.apply d s).1)] (h.apply d s).2.2.1 := .apply d s .set
    have kept := life.kept
    exact ⟨hname.trans kept.name, htransform.trans kept.transform, hlength.trans kept.length⟩

end Apply

/-! ### All places -/

/-- What becomes of the node of a leaf once a loader has answered. -/
def answer (o : Options) (loader : Loader) : Leaf → Node → Node
  | .text .., n => n
  | .emote id _ _, n =>
    (Stack.ofOptions o).depict (loader (o.emotes.urlFor id)).result.toOption n

/-- What becomes of the row of some leaves. -/
def answered (o : Options) (loader : Loader) (leaves : List Leaf) (row : Group) : Group :=
  { row with children := List.zipWith (answer o loader) leaves row.children }

/-- A loader has no picture for any emote of some leaves. -/
def Fails (o : Options) (leaves : List Leaf) (loader : Loader) : Prop :=
  ∀ (i : Nat) id color style, leaves[i]? = some (.emote id color style) →
    ∃ e, (loader (o.emotes.urlFor id)).result = .error e

section Set

variable {o : Options} {loader : Loader} {leaves : List Leaf} {s : Store} {d : Delivery}

/-- **Only the place of an emote whose picture came** is not what it was. -/
theorem exists_picture_of_ne {row : Group} (length : row.children.length = leaves.length) {i : Nat}
    (ne : (answered o loader leaves row).children[i]? ≠ row.children[i]?) :
    ∃ id color style t, leaves[i]? = some (.emote id color style) ∧
      (loader (o.emotes.urlFor id)).result = .ok t := by
  rw [answered, List.getElem?_zipWith] at ne
  rcases hleaf : leaves[i]? with _ | ⟨value, color, style⟩ | ⟨id, color, style⟩
  · rw [hleaf, List.getElem?_eq_none (length ▸ List.getElem?_eq_none_iff.1 hleaf)] at ne
    exact absurd rfl ne
  · rw [hleaf] at ne
    rcases hn : row.children[i]? with _ | n
    all_goals
      rw [hn] at ne
      exact absurd rfl ne
  · rcases hresult : (loader (o.emotes.urlFor id)).result with e | t
    · rw [hleaf] at ne
      rcases hn : row.children[i]? with _ | n
      all_goals simp [hn, answer, hresult, Except.toOption, Stack.depict] at ne
    · exact ⟨id, color, style, t, rfl, hresult⟩

/-- Without pictures a row stays as it is. -/
theorem answered_of_fails (fails : Fails o leaves loader) {row : Group}
    (length : row.children.length = leaves.length) : answered o loader leaves row = row := by
  refine Scene.Group.ext rfl rfl (List.ext_getElem? fun i => ?_)
  by_contra ne
  obtain ⟨id, color, style, t, hleaf, loaded⟩ := exists_picture_of_ne length ne
  obtain ⟨e, failed⟩ := fails i id color style hleaf
  rw [failed] at loaded
  cases loaded

/-- What the loads of a heading just set are when they are over. -/
theorem delivered_ofLeaves
    (done : d ∈ (ofLeaves o loader leaves s).1.loads.map delivered) :
    d.errand ∈ (ofLeaves o loader leaves s).1.loads.map (·.errand) ∧
      d.errand.generation = (ofLeaves o loader leaves s).2.2.generation ∧
      d.result = some (loader d.errand.request.url).result := by
  obtain ⟨l, hl, rfl⟩ := List.mem_map.1 done
  have own := List.mem_map_of_mem (f := (·.errand)) hl
  refine ⟨own, current_ofLeaves _ own, ?_⟩
  have hissued : l ∈ (issueAll loader (Draft.ofLeaves o leaves s).requests
    (Draft.ofLeaves o leaves s).store).1 := hl
  rw [issueAll_loads] at hissued
  obtain ⟨⟨r, n⟩, -, rfl⟩ := List.mem_map.1 hissued
  rfl

/-- Such a load brings what the loader answers. -/
theorem picture?_delivered (done : d ∈ (ofLeaves o loader leaves s).1.loads.map delivered) :
    picture? d (ofLeaves o loader leaves s).2.2 =
      (loader d.errand.request.url).result.toOption := by
  obtain ⟨-, hgeneration, hresult⟩ := delivered_ofLeaves done
  rw [picture?, if_pos hgeneration, hresult, Option.bind_some]

/-- **The place of a leaf** after all answers were applied, in whatever order. -/
theorem getElem?_children_answered {ds : List Delivery}
    (order : ds.Perm ((ofLeaves o loader leaves s).1.loads.map delivered))
    (bare : ∀ url, s.textures.get? url = none) (i : Nat) :
    (applyAll ds (ofLeaves o loader leaves s).1.drained
        (ofLeaves o loader leaves s).2.2).2.1.row.children[i]? =
      (answered o loader leaves (ofLeaves o loader leaves s).1.row).children[i]? := by
  have hlength : (ofLeaves o loader leaves s).1.row.children.length = leaves.length :=
    length_children rfl
  have own : ∀ d ∈ ds, d.errand ∈ (ofLeaves o loader leaves s).1.loads.map (·.errand) := fun d hd =>
    (delivered_ofLeaves (order.subset hd)).1
  have hrow : (ofLeaves o loader leaves s).1.drained.row =
      (ofLeaves o loader leaves s).1.row := rfl
  rw [answered, List.getElem?_zipWith]
  rcases hleaf : leaves[i]? with _ | ⟨value, color, style⟩ | ⟨id, color, style⟩
  · rw [List.getElem?_eq_none]
    rw [(applyAll_row _ _ _).2.2]
    exact hlength ▸ List.getElem?_eq_none_iff.1 hleaf
  · have idle : ∀ d ∈ ds, i ∉ d.errand.request.slots := fun d hd hi => by
      obtain ⟨id, color', style', hemote, -⟩ := emote_of_slot (own d hd) hi
      rw [hleaf] at hemote
      cases hemote
    have unreached : ¬ ∃ d ∈ ds, i ∈ d.errand.request.slots := fun ⟨d, hd, hi⟩ => idle d hd hi
    have same : ∀ d ∈ ds, i ∈ d.errand.request.slots →
        picture? d (ofLeaves o loader leaves s).2.2 = none := fun d hd hi => absurd hi (idle d hd)
    rw [getElem?_children_applyAll same, if_neg unreached, hrow]
    rcases (ofLeaves o loader leaves s).1.row.children[i]? with _ | n
    all_goals rfl
  · have same : ∀ d ∈ ds, i ∈ d.errand.request.slots →
        picture? d (ofLeaves o loader leaves s).2.2 =
          (loader (o.emotes.urlFor id)).result.toOption := fun d hd hi => by
      obtain ⟨id', color', style', hemote, hurl, -⟩ := emote_of_slot (own d hd) hi
      rw [hleaf] at hemote
      cases hemote
      rw [picture?_delivered (order.subset hd), hurl]
    have reached : ∃ d ∈ ds, i ∈ d.errand.request.slots := by
      obtain ⟨e, he, -, hi⟩ := exists_load_of_emote loader hleaf (bare _)
      obtain ⟨l, hl, rfl⟩ := List.mem_map.1 he
      exact ⟨delivered l, order.symm.subset (List.mem_map_of_mem hl), hi⟩
    rw [getElem?_children_applyAll same, if_pos reached, hrow]
    rcases (ofLeaves o loader leaves s).1.row.children[i]? with _ | n
    all_goals rfl

/-- **The heading in the end**, for any mixture of pictures and failures. -/
theorem settled_heading (sound : s.ledger.Sound) (bare : ∀ url, s.textures.get? url = none)
    (o : Options) (loader : Loader) (leaves : List Leaf) :
    (settled o loader leaves s).heading = { (ofLeaves o loader leaves s).1 with
      loads := []
      row := answered o loader leaves (ofLeaves o loader leaves s).1.row } := by
  obtain ⟨ds, order, hsettled⟩ := settleNext_eq_applyAll
    (ofLeaves o loader leaves s).2.2.isCancelled (s := (ofLeaves o loader leaves s).2.2)
    (Nat.le_refl (ofLeaves o loader leaves s).1.pending)
  rw [map_ended_ofLeaves sound] at order
  have hheading : (settled o loader leaves s).heading =
      (applyAll ds (ofLeaves o loader leaves s).1.drained (ofLeaves o loader leaves s).2.2).2.1 :=
    congrArg (fun x => x.2.1) hsettled
  obtain ⟨hname, htransform, -⟩ := applyAll_row ds (ofLeaves o loader leaves s).1.drained
    (ofLeaves o loader leaves s).2.2
  have hrow : (applyAll ds (ofLeaves o loader leaves s).1.drained
      (ofLeaves o loader leaves s).2.2).2.1.row =
        answered o loader leaves (ofLeaves o loader leaves s).1.row :=
    Scene.Group.ext hname htransform
      (List.ext_getElem? fun i => getElem?_children_answered order bare i)
  rw [hheading, applyAll_heading, hrow]
  rfl

/-- If no picture comes, every load is noted as failed. -/
theorem outcomes_of_fails (sound : s.ledger.Sound) (fails : Fails o leaves loader) :
    ∀ x ∈ (settled o loader leaves s).outcomes, ∃ url, x = .failed url := by
  obtain ⟨ds, order, hsettled⟩ := settleNext_eq_applyAll
    (ofLeaves o loader leaves s).2.2.isCancelled (s := (ofLeaves o loader leaves s).2.2)
    (Nat.le_refl (ofLeaves o loader leaves s).1.pending)
  rw [map_ended_ofLeaves sound] at order
  have houtcomes : (settled o loader leaves s).outcomes = _ :=
    (congrArg Prod.fst hsettled).trans (outcomes_applyAll _ _ _)
  rw [houtcomes]
  refine List.forall_mem_map.2 fun d hd => ?_
  obtain ⟨own, hgeneration, hresult⟩ := delivered_ofLeaves (order.subset hd)
  obtain ⟨i, id, color, style, hleaf, hurl⟩ := Draft.exists_emote_of_request (request_mem own)
  obtain ⟨e, he⟩ := fails i id color style hleaf
  rw [hurl, he] at hresult
  exact ⟨_, congrArg Prod.fst (apply_of_error hgeneration hresult)⟩

end Set

end Heading

end Marquee
