import Marquee.Proofs.Heading.Requests
import Marquee.Proofs.Stage.Transparent

/-!
# Headings Whose Loads All Land

A heading is set, and its loads land one after the other, each with the picture of its
address. In the end every emote has its picture: one that was in the store was put there
when the row was laid out; for any other its place waits for a load with its address, which
fills it. In which order they land makes no difference, as each place waits for one address
only.

## Main statements

* `Landing.child?` — what a place holds once every load has landed;
* `Landing.children` — the row in the end, which does not depend on the store;
* `landing_settled` — settling a heading lets its loads land;
* `paths_agree` — a picture that was there and one that comes make no difference.
-/

namespace Marquee

open Fetch Markup Scene Store

namespace Heading

/-! ### Landing -/

/-- Every load of a heading is over in some order, with the picture of its address, and is
applied at once. -/
inductive Landing (picture : String → Texture) : Heading → Store → Heading → Store → Prop
  | done {h : Heading} {s : Store} (none : h.loads = []) : Landing picture h s h s
  | land {h after h' : Heading} {s s' : Store} {d : Delivery} (yields : h.Yields s d after)
      (loaded : d.result = some (.ok (picture d.errand.request.url)))
      (rest : Landing picture (after.apply d s).2.2.1 (after.apply d s).2.2.2 h' s') :
      Landing picture h s h' s'

/-- The loads of a heading are of the generation of a store. -/
def Current (h : Heading) (s : Store) : Prop :=
  ∀ e ∈ h.loads.map (·.errand), e.generation = s.generation

/-- A place of a heading waits for an address. -/
def Waits (h : Heading) (i : Nat) (url : String) : Prop :=
  ∃ e ∈ h.loads.map (·.errand), e.request.url = url ∧ i ∈ e.request.slots

section Landing

variable {picture : String → Texture} {h after h' : Heading} {s s' : Store} {d : Delivery}

/-- What one load does that lands in time. -/
theorem apply_of_landed (current : Current h s) (yields : h.Yields s d after)
    (loaded : d.result = some (.ok (picture d.errand.request.url))) :
    (after.apply d s).2.2.1 = { h with
      loads := after.loads
      row := (swap h.stack (picture d.errand.request.url) d.errand.request.slots h.row).1 } ∧
    Current (after.apply d s).2.2.1 (after.apply d s).2.2.2 := by
  have hgen : d.errand.generation = s.generation :=
    current _ (yields.queue.subset List.mem_cons_self)
  have hgeneration : (after.apply d s).2.2.2.generation = s.generation :=
    congrArg Store.Ledger.generation (ledger_apply d after s)
  have happly : (after.apply d s).2.2.1 = { h with
      loads := after.loads
      row := (swap h.stack (picture d.errand.request.url) d.errand.request.slots h.row).1 } := by
    rw [apply_of_ok hgen loaded, yields.rest]
  refine ⟨happly, fun e he => ?_⟩
  rw [happly] at he
  exact (current e (yields.queue.subset (List.mem_cons_of_mem _ he))).trans hgeneration.symm

/-- What landing leaves alone. -/
theorem Landing.frame (landing : Landing picture h s h' s') (current : Current h s) :
    h'.row.name = h.row.name ∧ h'.width = h.width ∧ h'.loads = [] ∧
      h'.row.children.length = h.row.children.length := by
  induction landing with
  | done none => exact ⟨rfl, rfl, none, rfl⟩
  | land yields loaded _ ih =>
    obtain ⟨happly, current'⟩ := apply_of_landed current yields loaded
    obtain ⟨hname, hwidth, hloads, hlength⟩ := ih current'
    rw [happly] at hname hwidth hlength
    obtain ⟨hname', -, hlength'⟩ := swap_row _ _ _ _
    exact ⟨hname.trans hname', hwidth, hloads, hlength.trans hlength'⟩

/-- A place that waits for nothing stays as it is. -/
theorem Landing.child?_of_not_waits (landing : Landing picture h s h' s') (current : Current h s)
    {i : Nat} (idle : ∀ url, ¬ Waits h i url) : h'.row.child? i = h.row.child? i := by
  induction landing with
  | done none => rfl
  | @land h after _ s _ d yields loaded _ ih =>
    obtain ⟨happly, current'⟩ := apply_of_landed current yields loaded
    have hslots : i ∉ d.errand.request.slots := fun hi =>
      idle _ ⟨_, yields.queue.subset List.mem_cons_self, rfl, hi⟩
    rw [ih current' ?_, happly, child?_swap, if_neg hslots]
    rintro url ⟨e, he, rest⟩
    rw [happly] at he
    exact idle url ⟨e, yields.queue.subset (List.mem_cons_of_mem _ he), rest⟩

/-- **A place that waits** for one address gets its picture, in whichever order. -/
theorem Landing.child?_of_waits (landing : Landing picture h s h' s') (current : Current h s)
    {i : Nat} {url : String} (waits : Waits h i url) (only : ∀ u, Waits h i u → u = url) :
    h'.row.child? i = (h.row.child? i).map (h.stack.fill (picture url)) := by
  induction landing with
  | done none =>
    obtain ⟨e, he, -⟩ := waits
    rw [none] at he
    cases he
  | @land h after h' s s' d yields loaded rest ih =>
    obtain ⟨happly, current'⟩ := apply_of_landed current yields loaded
    have honly : ∀ u, Waits (after.apply d s).2.2.1 i u → u = url := by
      rintro u ⟨e, he, hrest⟩
      rw [happly] at he
      exact only u ⟨e, yields.queue.subset (List.mem_cons_of_mem _ he), hrest⟩
    by_cases hslots : i ∈ d.errand.request.slots
    · obtain rfl : d.errand.request.url = url :=
        only _ ⟨_, yields.queue.subset List.mem_cons_self, rfl, hslots⟩
      have hrow : (after.apply d s).2.2.1.row.child? i =
          (h.row.child? i).map (h.stack.fill (picture d.errand.request.url)) := by
        rw [happly, child?_swap, if_pos hslots]
      by_cases hmore : Waits (after.apply d s).2.2.1 i d.errand.request.url
      · -- filled once more, with the same picture
        rw [ih current' hmore honly, hrow, happly, Option.map_map]
        rfl
      · rw [rest.child?_of_not_waits current' (fun u hu => hmore (honly u hu ▸ hu)), hrow]
    · have hmore : Waits (after.apply d s).2.2.1 i url := by
        obtain ⟨e, he, hurl, hi⟩ := waits
        rcases List.mem_cons.1 (yields.queue.symm.subset he) with rfl | he
        · exact absurd hi hslots
        · refine ⟨e, ?_, hurl, hi⟩
          rw [happly]
          exact he
      rw [ih current' hmore honly, happly, child?_swap, if_neg hslots]

end Landing

/-! ### Landing after a heading was set -/

/-- A row of groups is known by its places. -/
theorem children_of_child? {row : Group} {gs : List Group}
    (length : row.children.length = gs.length) (places : ∀ i, row.child? i = gs[i]?) :
    row.children = gs.map Group.toNode := by
  refine List.ext_getElem (length.trans (List.length_map _).symm) fun i hi hi' => ?_
  have hplace := places i
  rw [Group.child?, List.getElem?_eq_getElem hi, List.getElem?_eq_getElem (length ▸ hi)] at hplace
  rw [List.getElem_map]
  exact Group.eq_toNode_of_group? hplace

section Set

variable {o : Options} {loader : Loader} {leaves : List Leaf} {s s' : Store} {h' : Heading}
  {picture : String → Texture}

/-- A heading just set waits for loads of its store's generation. -/
theorem current_ofLeaves :
    Current (ofLeaves o loader leaves s).1 (ofLeaves o loader leaves s).2.2 := by
  intro e he
  have hgeneration : (ofLeaves o loader leaves s).2.2.generation = s.generation :=
    congrArg Store.Ledger.generation (ledger_ofLeaves o loader leaves s)
  exact (generation_of_mem he).trans hgeneration.symm

theorem row_name_ofLeaves : (ofLeaves o loader leaves s).1.row.name = "row" := rfl

/-- A place that waits is that of an emote whose picture the store lacked. -/
theorem emote_of_waits {i : Nat} {url : String} (waits : Waits (ofLeaves o loader leaves s).1 i url) :
    ∃ id color style, leaves[i]? = some (.emote id color style) ∧ url = o.emotes.urlFor id ∧
      s.textures.get? url = none := by
  obtain ⟨e, he, rfl, hi⟩ := waits
  exact emote_of_slot he hi

/-- Any other place stays as it was set. -/
theorem Landing.child?_of_set {i : Nat}
    (landing : Landing picture (ofLeaves o loader leaves s).1 (ofLeaves o loader leaves s).2.2 h' s')
    (other : ∀ id color style, leaves[i]? = some (.emote id color style) →
      s.textures.get? (o.emotes.urlFor id) ≠ none) :
    h'.row.child? i = (ofLeaves o loader leaves s).1.row.child? i := by
  refine landing.child?_of_not_waits current_ofLeaves fun url waits => ?_
  obtain ⟨id, color, style, hleaf, rfl, lacks⟩ := emote_of_waits waits
  exact other id color style hleaf lacks

/-- Such an emote waits for its address. -/
theorem waits_of_emote {i : Nat} {id color : String} {style : Style}
    (hleaf : leaves[i]? = some (.emote id color style))
    (lacks : s.textures.get? (o.emotes.urlFor id) = none) :
    Waits (ofLeaves o loader leaves s).1 i (o.emotes.urlFor id) :=
  exists_load_of_emote loader hleaf lacks

/-- Pictures that a store has are the ones that loads would bring. -/
def Holds (o : Options) (leaves : List Leaf) (picture : String → Texture) (s : Store) : Prop :=
  ∀ (i : Nat) id color style, leaves[i]? = some (.emote id color style) →
    ∀ t, s.textures.get? (o.emotes.urlFor id) = some t → t = picture (o.emotes.urlFor id)

/-- A new store has none. -/
theorem holds_start (o : Options) (leaves : List Leaf) (picture : String → Texture) :
    Holds o leaves picture {} := by
  intro i id color style _ t ht
  have hnone : ({} : Store).textures.get? (o.emotes.urlFor id) = none := rfl
  rw [hnone] at ht
  cases ht

/-- What is in a place in the end, whether its picture came at once or later. -/
theorem Landing.child?_ofLeaves {kind : Extrusion → Prop}
    (landing : Landing picture (ofLeaves o loader leaves s).1 (ofLeaves o loader leaves s).2.2 h' s')
    (made : s.Made o.fonts kind) (apart : Extrusion.Apart kind) (params : kind o.geometry)
    (holds : Holds o leaves picture s) (i : Nat) :
    h'.row.child? i = (groupsFrom o (fun url => some (picture url)) 0 leaves)[i]? := by
  have hset := child?_anew made apart params loader leaves i
  rw [getElem?_groupsFrom]
  rcases hleaf : leaves[i]? with _ | ⟨value, color, style⟩ | ⟨id, color, style⟩
  · rw [landing.child?_of_set ?_, hset, hleaf]
    · rfl
    · intro id color style hemote
      rw [hleaf] at hemote
      cases hemote
  · rw [landing.child?_of_set ?_, hset, hleaf]
    · rfl
    · intro id color style hemote
      rw [hleaf] at hemote
      cases hemote
  · rcases hpicture : s.textures.get? (o.emotes.urlFor id) with _ | t
    · -- the place waits for the address of the emote, and for no other
      have only : ∀ u, Waits (ofLeaves o loader leaves s).1 i u → u = o.emotes.urlFor id := by
        intro u waits
        obtain ⟨id', color', style', hemote, hurl, -⟩ := emote_of_waits waits
        rw [hleaf] at hemote
        cases hemote
        exact hurl
      rw [landing.child?_of_waits current_ofLeaves (waits_of_emote hleaf hpicture) only, hset,
        hleaf]
      rfl
    · rw [landing.child?_of_set ?_, hset, hleaf]
      · simp only [Option.map_some, groupAt, hpicture, holds i id color style hleaf t hpicture]
      · intro id' color' style' hemote
        rw [hleaf] at hemote
        cases hemote
        rw [hpicture]
        exact Option.some_ne_none t

/-- **The row in the end** is the one laid out anew with every picture there, whatever the
store had of them and in which order the others came. -/
theorem Landing.children {kind : Extrusion → Prop}
    (landing : Landing picture (ofLeaves o loader leaves s).1 (ofLeaves o loader leaves s).2.2 h' s')
    (made : s.Made o.fonts kind) (apart : Extrusion.Apart kind) (params : kind o.geometry)
    (holds : Holds o leaves picture s) :
    h'.row.children =
      (groupsFrom o (fun url => some (picture url)) 0 leaves).map Group.toNode := by
  refine children_of_child? ?_ (landing.child?_ofLeaves made apart params holds)
  rw [(landing.frame current_ofLeaves).2.2.2, (anew_ofLeaves made apart params loader leaves).2.1,
    List.length_map, length_groupsFrom, length_groupsFrom]

end Set

/-! ### Settling -/

/-- A load was not called off and will bring the picture of its address. -/
def Live (picture : String → Texture) (s : Store) (l : Load) : Prop :=
  ¬ s.isCancelled l.errand.load ∧ l.response.result = .ok (picture l.errand.request.url)

section Settle

variable {picture : String → Texture} {s : Store}

/-- A load is live if what it ends in is its picture. -/
theorem live_iff {l : Load} : Live picture s l ↔
    (ended s.isCancelled l).result = some (.ok (picture l.errand.request.url)) := by
  rw [Live, ended]
  by_cases hc : s.isCancelled l.errand.load
  · simp [hc]
  · simp [hc]

/-- What the queue hands out of such loads is a picture, however long it takes. -/
theorem drive_of_live {q rest : List Load} {d : Delivery} {n : Nat}
    (live : ∀ l ∈ q, Live picture s l) (e : drive s.isCancelled q = some (d, rest, n)) :
    d.result = some (.ok (picture d.errand.request.url)) ∧ ∀ l ∈ rest, Live picture s l := by
  have perm := drive_perm e
  have pictured : ∀ d' ∈ q.map (ended s.isCancelled),
      d'.result = some (.ok (picture d'.errand.request.url)) :=
    List.forall_mem_map.2 fun l hl => live_iff.1 (live l hl)
  refine ⟨pictured d (perm.subset List.mem_cons_self), fun l hl => live_iff.2 ?_⟩
  exact pictured _ (perm.subset (List.mem_cons_of_mem _ (List.mem_map_of_mem hl)))

/-- Applying a load calls none off. -/
theorem isCancelled_apply (h : Heading) (d : Delivery) (s : Store) :
    (h.apply d s).2.2.2.isCancelled = s.isCancelled := by
  have hcancelled : (h.apply d s).2.2.2.cancelled = s.cancelled :=
    congrArg Store.Ledger.cancelled (ledger_apply d h s)
  funext load
  rw [Store.isCancelled, Store.isCancelled, hcancelled]

/-- **Settling lets loads land**, one after the other. -/
theorem landing_settleNext {h : Heading} {n : Nat} (live : ∀ l ∈ h.loads, Live picture s l)
    (enough : h.pending ≤ n) :
    Landing picture h s (h.settleNext s.isCancelled n s).heading
      (h.settleNext s.isCancelled n s).store := by
  induction n generalizing h s with
  | zero => exact .done (List.length_eq_zero_iff.1 (Nat.le_zero.1 enough))
  | succ n ih =>
    rcases hnext : h.next s.isCancelled with _ | ⟨d, after, calls⟩
    · rw [settleNext_of_none hnext]
      exact .done (List.length_eq_zero_iff.1 (next_eq_none_iff.1 hnext))
    · have yields := yields_next hnext
      obtain ⟨⟨d', rest, n'⟩, hdrive, he⟩ := Option.map_eq_some_iff.1 hnext
      cases he
      obtain ⟨loaded, hrest⟩ := drive_of_live live hdrive
      have hloads : (Heading.apply d { h with loads := rest } s).2.2.1.loads = rest := by
        rw [apply_heading]
      have hlive : ∀ l ∈ (Heading.apply d { h with loads := rest } s).2.2.1.loads,
          Live picture (Heading.apply d { h with loads := rest } s).2.2.2 l := by
        intro l hl
        rw [Live, isCancelled_apply]
        exact hrest l (hloads ▸ hl)
      have hpending : h.pending = rest.length + 1 := pending_next hnext
      have more := ih hlive (by rw [pending, hloads]; omega)
      rw [isCancelled_apply] at more
      rw [settleNext_of_some hnext]
      exact .land yields loaded more

/-- A loader brings the pictures of some leaves, each after any delay. -/
def Brings (o : Options) (leaves : List Leaf) (picture : String → Texture) (loader : Loader) :
    Prop :=
  ∀ (i : Nat) id color style, leaves[i]? = some (.emote id color style) →
    (loader (o.emotes.urlFor id)).result = .ok (picture (o.emotes.urlFor id))

/-- The loads of a heading just set are under way. -/
theorem live_ofLeaves {o : Options} {loader : Loader} {leaves : List Leaf}
    (sound : s.ledger.Sound) (brings : Brings o leaves picture loader) :
    ∀ l ∈ (ofLeaves o loader leaves s).1.loads,
      Live picture (ofLeaves o loader leaves s).2.2 l := by
  intro l hl
  refine ⟨not_cancelled_ofLeaves sound o loader leaves (List.mem_map_of_mem hl), ?_⟩
  have hl : l ∈ (issueAll loader (Draft.ofLeaves o leaves s).requests
    (Draft.ofLeaves o leaves s).store).1 := hl
  rw [issueAll_loads] at hl
  obtain ⟨⟨r, n⟩, hmem, rfl⟩ := List.mem_map.1 hl
  obtain ⟨i, id, color, style, hleaf, hurl⟩ :=
    Draft.exists_emote_of_request (List.fst_mem_of_mem_zipIdx hmem)
  have hanswer : (loader r.url).result = .ok (picture r.url) :=
    hurl ▸ brings i id color style hleaf
  exact hanswer

end Settle

/-! ### Two stores -/

/-- A heading of some leaves over a store, once it waited for all its loads. -/
def settled (o : Options) (loader : Loader) (leaves : List Leaf) (s : Store) : Settled :=
  (ofLeaves o loader leaves s).1.settle (ofLeaves o loader leaves s).2.2.isCancelled
    (ofLeaves o loader leaves s).2.2

/-- **A heading that is settled** shows all its pictures, as the store has them. -/
theorem landing_settled {o : Options} {loader : Loader} {leaves : List Leaf} {s : Store}
    {picture : String → Texture} (sound : s.ledger.Sound) (brings : Brings o leaves picture loader) :
    Landing picture (ofLeaves o loader leaves s).1 (ofLeaves o loader leaves s).2.2
      (settled o loader leaves s).heading (settled o loader leaves s).store := by
  rw [settled, settle]
  exact landing_settleNext (live_ofLeaves sound brings) (Nat.le_refl _)

section Paths

variable {past₁ past₂ : List Act} {w₁ w₂ : Stage} {o : Options} {leaves : List Leaf}
  {loader₁ loader₂ : Loader} {picture : String → Texture}

/-- **A picture that was there and one that comes make no difference.** Two programs leave a
store each, with nothing set over it but by the family and the measures of some options; of
the pictures of some leaves either store has any, the same ones that loaders bring. Then the
leaves are set over both, and their loads awaited. The two rows have the same children and
the two headings reach equally far, and so it is if the loads come in any other order. -/
theorem paths_agree (run₁ : Run .start past₁ w₁) (run₂ : Run .start past₂ w₂)
    (shares₁ : ∀ a ∈ past₁, a.Shares o.fonts (· = o.geometry))
    (shares₂ : ∀ a ∈ past₂, a.Shares o.fonts (· = o.geometry))
    (holds₁ : Holds o leaves picture w₁.store) (holds₂ : Holds o leaves picture w₂.store)
    (brings₁ : Brings o leaves picture loader₁) (brings₂ : Brings o leaves picture loader₂) :
    (settled o loader₁ leaves w₁.store).heading.row.children =
        (settled o loader₂ leaves w₂.store).heading.row.children ∧
      (settled o loader₁ leaves w₁.store).heading.row.name =
        (settled o loader₂ leaves w₂.store).heading.row.name ∧
      (settled o loader₁ leaves w₁.store).heading.width =
        (settled o loader₂ leaves w₂.store).heading.width ∧
      (settled o loader₁ leaves w₁.store).heading.pending = 0 ∧
      (settled o loader₂ leaves w₂.store).heading.pending = 0 ∧
      ∀ h s, Landing picture (ofLeaves o loader₁ leaves w₁.store).1
          (ofLeaves o loader₁ leaves w₁.store).2.2 h s →
        h.row.children = (settled o loader₂ leaves w₂.store).heading.row.children := by
  have apart := Extrusion.apart_eq o.geometry
  have made₁ := run₁.made shares₁ (made_start _ _)
  have made₂ := run₂.made shares₂ (made_start _ _)
  have landing₁ := landing_settled (run₁.sound .start).ledger brings₁
  have landing₂ := landing_settled (run₂.sound .start).ledger brings₂
  obtain ⟨hname₁, hwidth₁, hloads₁, -⟩ := landing₁.frame current_ofLeaves
  obtain ⟨hname₂, hwidth₂, hloads₂, -⟩ := landing₂.frame current_ofLeaves
  have hchildren₂ := landing₂.children made₂ apart rfl holds₂
  refine ⟨?_, ?_, ?_, ?_, ?_, fun h s landing => ?_⟩
  · exact (landing₁.children made₁ apart rfl holds₁).trans hchildren₂.symm
  · rw [hname₁, hname₂, row_name_ofLeaves, row_name_ofLeaves]
  · rw [hwidth₁, hwidth₂, (anew_ofLeaves made₁ apart rfl loader₁ leaves).1,
      (anew_ofLeaves made₂ apart rfl loader₂ leaves).1]
  · rw [pending, hloads₁]
    rfl
  · rw [pending, hloads₂]
    rfl
  · exact (landing.children made₁ apart rfl holds₁).trans hchildren₂.symm

end Paths

/-- An emote is set, its picture comes, and it is set again with another. That the picture is
there the second time makes no difference to setting both over a new store. -/
theorem paths_agree_after_load :
    ∃ w d, Run .start [.set .inkless pixelLoader [.emote "1" "white" .regular], .take 0 d,
        .apply 0 d 0] w ∧
      w.store.textures.get? (Options.inkless.emotes.urlFor "1") ≠ none ∧
      (settled .inkless pixelLoader [.emote "1" "white" .regular, .emote "2" "white" .regular]
          {}).heading.row.children =
        (settled .inkless pixelLoader [.emote "1" "white" .regular, .emote "2" "white" .regular]
          w.store).heading.row.children := by
  let url := Options.inkless.emotes.urlFor "1"
  let d : Delivery := ⟨⟨⟨url, "1", [0]⟩, 0, 0⟩, some (.ok ⟨url, 1, 1⟩)⟩
  let set := ofLeaves .inkless pixelLoader [.emote "1" "white" .regular] {}
  let store := (Heading.apply d { set.1 with loads := [] } set.2.2).2.2.2
  have yields : set.1.Yields set.2.2 d { set.1 with loads := [] } :=
    ⟨.refl _, rfl, fun hnone => by cases hnone⟩
  have run : Run .start [.set .inkless pixelLoader [.emote "1" "white" .regular], .take 0 d,
      .apply 0 d 0] ⟨store, _, []⟩ :=
    .cons (.set _ _ _) (.cons (.take rfl yields) (.cons (.apply (.refl _) rfl) .nil))
  have hget : ∀ u, store.textures.get? u = if u = url then some ⟨url, 1, 1⟩ else none := by
    intro u
    have happly : store = (set.2.2.finish 0).insertTexture url ⟨url, 1, 1⟩ := by
      rw [show store = (Heading.apply d { set.1 with loads := [] } set.2.2).2.2.2 from rfl,
        apply_of_ok (t := ⟨url, 1, 1⟩) rfl rfl]
    rw [happly]
    exact (Shelf.get?_put _ _ _ _).trans
      (congrArg _ (textures_ofLeaves .inkless pixelLoader [.emote "1" "white" .regular] {} u))
  have holds : Holds .inkless [.emote "1" "white" .regular, .emote "2" "white" .regular]
      (fun u => ⟨u, 1, 1⟩) store := by
    intro i id color style _ t ht
    rw [hget] at ht
    split at ht
    · next heq =>
      cases ht
      rw [heq]
    · cases ht
  have shares : ∀ a ∈ [Act.set .inkless pixelLoader [.emote "1" "white" .regular], .take 0 d,
      .apply 0 d 0], a.Shares Options.inkless.fonts (· = Options.inkless.geometry) := by
    intro a ha o leaves hsheet
    rcases List.mem_cons.1 ha with rfl | ha
    · cases hsheet
      exact ⟨rfl, rfl⟩
    · rcases List.mem_pair.1 ha with rfl | rfl
      · cases hsheet
      · cases hsheet
  have brings : Brings .inkless [.emote "1" "white" .regular, .emote "2" "white" .regular]
      (fun u => ⟨u, 1, 1⟩) pixelLoader := fun _ _ _ _ _ => rfl
  obtain ⟨hchildren, -⟩ := paths_agree .nil run (List.forall_mem_nil _) shares
    (holds_start _ _ _) holds brings brings
  refine ⟨_, d, run, ?_, hchildren⟩
  rw [hget, if_pos rfl]
  exact Option.some_ne_none _

end Heading

end Marquee
