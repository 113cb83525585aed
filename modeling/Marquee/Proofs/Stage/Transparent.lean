import Marquee.Proofs.Heading.Served
import Marquee.Proofs.Stage.Basic

/-!
# A Store Shows in Nothing but Speed

Over one store headings are set by any options with one family and finite measures. What
the store has was made for its keys, so every mesh that such a heading gets is the one that
would be built anew; and no later act puts another mesh anywhere, as loads bring sprites
only. Until the next clearing, what is kept under a key stays there.

## Main statements

* `Step.made`, `Run.made` — what a store has was made for its keys;
* `Run.written` — whatever becomes of a heading, its meshes are those of its texts;
* `Run.keeps` — without a clearing, nothing under a key is replaced;
* `store_transparent` — all of it for the runs of a program.
-/

namespace Marquee

open Fetch Font Heading Markup Scene Stage Store

/-! ### Meshes in a row -/

/-- A mesh stands somewhere in a tree of nodes. -/
inductive Scene.Node.Has (m : Mesh) : Node → Prop
  | mesh : Has m (.mesh m)
  | group {name : String} {transform : Space.Transform} {children : List Node} {c : Node}
      (child : c ∈ children) (has : Has m c) : Has m (.group name transform children)

/-- Every mesh in a row is that of the text at its place, built and made anew. -/
def Heading.FreshRow (o : Options) (leaves : List Leaf) (row : Group) : Prop :=
  ∀ (i : Nat) c m, row.children[i]? = some c → c.Has m → ∃ value color style,
    leaves[i]? = some (.text value color style) ∧ m = freshMesh o value color style

namespace Heading

/-- The sprites of a picture are no meshes. -/
theorem Stack.not_has_sprites {stack : Stack} {t : Texture} {m : Mesh} :
    ∀ c ∈ stack.sprites t, ¬ c.Has m := by
  intro c hc has
  obtain ⟨i, -, rfl⟩ := List.mem_map.1 hc
  cases has

/-- An emote shows no mesh. -/
theorem Stack.not_has_show {stack : Stack} {picture : Option Texture} {m : Mesh} :
    ∀ c ∈ stack.show picture, ¬ c.Has m := by
  cases picture with
  | some t => exact not_has_sprites
  | none =>
    intro c hc has
    obtain rfl := List.mem_singleton.1 hc
    cases has

/-- The group of a leaf has a mesh only if the leaf is a text. -/
theorem has_groupAt {o : Options} {picture? : String → Option Texture} {x : Float32} {leaf : Leaf}
    {m : Mesh} (has : (groupAt o picture? x leaf).toNode.Has m) :
    ∃ value color style, leaf = .text value color style ∧ m = freshMesh o value color style := by
  cases leaf with
  | text value color style =>
    refine ⟨value, color, style, rfl, ?_⟩
    rw [groupAt] at has
    split at has
    · cases has with
      | group child => cases child
    · cases has with
      | group child has =>
        obtain rfl := List.mem_singleton.1 child
        cases has
        rfl
  | emote id color style =>
    cases has with
    | group child has => exact absurd has (Stack.not_has_show _ child)

/-- Swapping fills places with sprites. -/
theorem children_swap {stack : Stack} {t : Texture} {slots : List Nat} {row : Group} {i : Nat}
    {c : Node} (hc : (swap stack t slots row).1.children[i]? = some c) :
    row.children[i]? = some c ∨ ∃ g : Group, c = (stack.fill t g).toNode := by
  induction slots generalizing row with
  | nil => exact .inl hc
  | cons slot slots ih =>
    rcases hg : row.child? slot with _ | g
    · rw [swap_cons_none hg] at hc
      exact ih hc
    · rw [swap_cons_some hg] at hc
      rcases ih hc with hc | filled
      · rw [Group.setChild, List.getElem?_set] at hc
        split at hc
        · split at hc
          · exact .inr ⟨g, (Option.some.inj hc).symm⟩
          · cases hc
        · exact .inl hc
      · exact .inr filled

variable {o : Options} {leaves : List Leaf} {row : Group}

/-- A picture that is swapped in leaves all meshes as they are. -/
theorem FreshRow.swap (fresh : FreshRow o leaves row) (stack : Stack) (t : Texture)
    (slots : List Nat) : FreshRow o leaves (Heading.swap stack t slots row).1 := by
  intro i c m hc has
  rcases children_swap hc with hc | ⟨g, rfl⟩
  · exact fresh i c m hc has
  · cases has with
    | group child has => exact absurd has (Stack.not_has_sprites _ child)

/-- **An application** puts no mesh anywhere. -/
theorem FreshRow.apply {h : Heading} (fresh : FreshRow o leaves h.row) (d : Delivery) (s : Store) :
    FreshRow o leaves (h.apply d s).2.2.1.row := by
  rcases apply_cases d h s with ⟨-, -, heq⟩ | ⟨-, -, heq⟩ | ⟨t, -, -, -, heq⟩
  · rw [heq]
    exact fresh
  · rw [heq]
    exact fresh
  · rw [heq]
    exact fresh.swap h.stack t _

/-- A heading just set over a store of things made for their keys. -/
theorem freshRow_ofLeaves {kind : Extrusion → Prop} {s : Store} (made : s.Made o.fonts kind)
    (apart : Extrusion.Apart kind) (params : kind o.geometry) (loader : Loader)
    (leaves : List Leaf) : FreshRow o leaves (ofLeaves o loader leaves s).1.row := by
  intro i c m hc has
  rw [(anew_ofLeaves made apart params loader leaves).2.1, List.getElem?_map,
    getElem?_groupsFrom, Option.map_map] at hc
  obtain ⟨leaf, hleaf, rfl⟩ := Option.map_eq_some_iff.1 hc
  obtain ⟨value, color, style, rfl, hm⟩ := has_groupAt has
  exact ⟨value, color, style, hleaf, hm⟩

/-- The mesh of a text that is not blank is there from the beginning. -/
theorem child?_ofLeaves {kind : Extrusion → Prop} {s : Store} (made : s.Made o.fonts kind)
    (apart : Extrusion.Apart kind) (params : kind o.geometry) (loader : Loader) {i : Nat}
    {value color : String} {style : Style} (hleaf : leaves[i]? = some (.text value color style))
    (ink : Text.core value.toList ≠ []) :
    ∃ g, (ofLeaves o loader leaves s).1.row.child? i = some g ∧
      g.children = [.mesh (freshMesh o value color style)] := by
  rw [child?_anew made apart params, hleaf]
  refine ⟨_, rfl, ?_⟩
  have hink : ¬ (Text.core value.toList).isEmpty := fun h => ink (List.isEmpty_iff.1 h)
  rw [groupAt, if_neg hink]
  rfl

end Heading

/-! ### What acts do to the store -/

/-- The options and leaves of the heading that an act sets, if it does. -/
def Act.sheet : Act → Option (Options × List Leaf)
  | set o _ leaves => some (o, leaves)
  | compile o _ markup => some (o, leavesOf markup)
  | _ => none

/-- What stands under the keys of solids and materials stays. -/
structure Store.Keeps (s t : Store) : Prop where
  solid : ∀ k g, s.geometries.get? k = some g → t.geometries.get? k = some g
  pair : ∀ c m, s.materials.get? c = some m → t.materials.get? c = some m

namespace Store

variable {s t u : Store}

theorem Keeps.refl (s : Store) : s.Keeps s := ⟨fun _ _ h => h, fun _ _ h => h⟩

/-- What is kept twice is kept. -/
theorem Keeps.trans (first : s.Keeps t) (second : t.Keeps u) : s.Keeps u :=
  ⟨fun k g h => second.solid k g (first.solid k g h),
    fun c m h => second.pair c m (first.pair c m h)⟩

/-- A store with the same solids and materials keeps them. -/
theorem keeps_of_eq (geometries : t.geometries = s.geometries)
    (materials : t.materials = s.materials) : s.Keeps t :=
  ⟨fun _ _ h => geometries ▸ h, fun _ _ h => materials ▸ h⟩

/-- A solid that is built goes under a key where nothing was. -/
theorem keeps_geometry (s : Store) (k : SolidKey) (build : Unit → TextGeometry × List Event) :
    s.Keeps (s.geometry k build).2.2 := by
  rw [Store.geometry, Shelf.look]
  rcases hget : s.geometries.get? k with _ | g
  · refine ⟨fun l g hl => ?_, fun _ _ h => h⟩
    rw [Shelf.get?_put, if_neg]
    · exact hl
    · rintro rfl
      rw [hget] at hl
      cases hl
  · exact ⟨fun _ _ h => h, fun _ _ h => h⟩

/-- Likewise for materials. -/
theorem keeps_material (s : Store) (c : Color) : s.Keeps (s.material c).2 := by
  refine ⟨fun _ _ h => h, fun d m hd => ?_⟩
  have htake := Shelf.get?_take s.materials c d fun _ => .ofColor c
  refine htake.trans ?_
  split
  · next heq =>
    subst heq
    rw [hd]
    rfl
  · exact hd

end Store

namespace Heading

/-- One more leaf keeps all solids and materials. -/
theorem Draft.keeps_add (o : Options) (d : Draft) (leaf : Leaf) :
    d.store.Keeps (d.add o leaf).store := by
  cases leaf with
  | text value color style =>
    rw [add]
    split
    · exact .refl _
    · have hsolid := d.store.keeps_geometry
        (.of (.ofList (Text.core value.toList)) style o.geometry)
        fun _ => build o (.ofList (Text.core value.toList)) style
      exact hsolid.trans (keeps_material _ (Draft.color color).1)
  | emote id color style => exact keeps_of_eq rfl rfl

/-- Leaves keep all solids and materials. -/
theorem Draft.keeps_foldl (o : Options) (leaves : List Leaf) (d : Draft) :
    d.store.Keeps (leaves.foldl (add o) d).store := by
  induction leaves generalizing d with
  | nil => exact .refl _
  | cons leaf leaves ih => exact (keeps_add o d leaf).trans (ih _)

/-- A heading that is set keeps all solids and materials. -/
theorem keeps_ofLeaves (o : Options) (loader : Loader) (leaves : List Leaf) (s : Store) :
    s.Keeps (ofLeaves o loader leaves s).2.2 := by
  obtain ⟨hsolids, hmaterials, -⟩ := shelves_issueAll loader (Draft.ofLeaves o leaves s).requests
    (Draft.ofLeaves o leaves s).store
  exact (Draft.keeps_foldl o leaves (.start s)).trans (keeps_of_eq hsolids hmaterials)

/-- An application leaves solids and materials as they are. -/
theorem shelves_apply (h : Heading) (d : Delivery) (s : Store) :
    (h.apply d s).2.2.2.geometries = s.geometries ∧
      (h.apply d s).2.2.2.materials = s.materials := by
  rcases apply_cases d h s with ⟨-, -, heq⟩ | ⟨-, -, heq⟩ | ⟨t, -, -, -, heq⟩
  all_goals
    rw [heq]
    exact ⟨rfl, rfl⟩

/-- A texture stays unless its address gets another. -/
theorem textures_apply {h : Heading} {d : Delivery} {s : Store} {url : String} {t : Texture}
    (there : s.textures.get? url = some t)
    (same : d.errand.request.url = url → ∀ t', d.result = some (.ok t') → t' = t) :
    (h.apply d s).2.2.2.textures.get? url = some t := by
  rcases apply_cases d h s with ⟨-, -, heq⟩ | ⟨-, -, heq⟩ | ⟨t', -, hresult, -, heq⟩
  · rw [heq]
    exact there
  · rw [heq]
    exact there
  · rw [heq]
    refine (Shelf.get?_put _ _ _ _).trans ?_
    split
    · next hurl => rw [same hurl.symm t' hresult]
    · exact there

end Heading

section Step

variable {w w' : Stage} {a : Act} {fonts : Family} {kind : Extrusion → Prop}

/-- An act sets a heading, if any, by options with one family and measures of some kind. -/
def Act.Shares (fonts : Family) (kind : Extrusion → Prop) (a : Act) : Prop :=
  ∀ o leaves, a.sheet = some (o, leaves) → o.fonts = fonts ∧ kind o.geometry

/-- **One act** keeps to a store of things made for their keys. -/
theorem Step.made (step : Step w a w') (shares : a.Shares fonts kind)
    (made : w.store.Made fonts kind) : w'.store.Made fonts kind := by
  cases step with
  | set o loader leaves =>
    obtain ⟨rfl, params⟩ := shares o leaves rfl
    exact made_ofLeaves made params loader leaves
  | compile o loader markup =>
    obtain ⟨rfl, params⟩ := shares o (leavesOf markup) rfl
    exact made_ofLeaves (made_clear _ _ w.store) params loader (leavesOf markup)
  | clear => exact made_clear _ _ w.store
  | take => exact made
  | apply own here => exact made.of_eq (shelves_apply _ _ _).1 (shelves_apply _ _ _).2

/-- An act that clears nothing replaces nothing under a key, and no texture but by another
for its address. -/
theorem Step.keeps (step : Step w a w') (quiet : ¬ a.clears) :
    w.store.Keeps w'.store ∧ ∀ url t, w.store.textures.get? url = some t →
      (∀ i d j, a = .apply i d j → d.errand.request.url = url → ∀ t',
        d.result = some (.ok t') → t' = t) → w'.store.textures.get? url = some t := by
  cases step with
  | set o loader leaves =>
    exact ⟨keeps_ofLeaves o loader leaves w.store, fun url t there _ =>
      (textures_ofLeaves o loader leaves w.store url).trans there⟩
  | compile | clear => exact absurd rfl quiet
  | take => exact ⟨.refl _, fun _ _ there _ => there⟩
  | apply own here =>
    exact ⟨keeps_of_eq (shelves_apply _ _ _).1 (shelves_apply _ _ _).2, fun url t there same =>
      textures_apply there (same _ _ _ rfl)⟩

/-- The headings of a stage, one to a sheet, with no meshes but those of its texts. -/
structure Stage.Written (sheets : List (Options × List Leaf)) (w : Stage) : Prop where
  length : w.headings.length = sheets.length
  rows : ∀ (n : Nat) (h : Heading), w.headings[n]? = some h → ∃ o leaves,
    sheets[n]? = some (o, leaves) ∧ FreshRow o leaves h.row

variable {sheets : List (Options × List Leaf)}

theorem Stage.written_start : start.Written [] := ⟨rfl, fun _ _ here => by cases here⟩

/-- A heading is hung behind the others, as its sheet is put behind theirs. -/
theorem Stage.Written.hang (written : w.Written sheets) {r : Heading × List Event × Store}
    {o : Options} {leaves : List Leaf} (fresh : FreshRow o leaves r.1.row) :
    (w.hang r).Written (sheets ++ [(o, leaves)]) := by
  refine ⟨?_, fun n h here => ?_⟩
  · rw [Stage.hang, List.length_append, List.length_append, written.length]
    rfl
  · rcases getElem?_hang_cases here with old | ⟨rfl, rfl⟩
    · obtain ⟨o', leaves', hsheet, hrow⟩ := written.rows n h old
      have hlt := (List.getElem?_eq_some_iff.1 hsheet).1
      exact ⟨o', leaves', (List.getElem?_append_left hlt).trans hsheet, hrow⟩
    · exact ⟨o, leaves, written.length ▸ List.getElem?_concat_length, fresh⟩

/-- A heading is changed without getting a mesh. -/
theorem Stage.Written.set (written : w.Written sheets) {j : Nat} {h h' : Heading}
    (here : w.headings[j]? = some h)
    (fresh : ∀ o leaves, FreshRow o leaves h.row → FreshRow o leaves h'.row) (s : Store)
    (taken : List (Nat × Delivery)) : Written sheets ⟨s, w.headings.set j h', taken⟩ := by
  refine ⟨List.length_set.trans written.length, fun n k there => ?_⟩
  rcases getElem?_set_cases there with ⟨rfl, rfl⟩ | there
  · obtain ⟨o, leaves, hsheet, hrow⟩ := written.rows n h here
    exact ⟨o, leaves, hsheet, fresh o leaves hrow⟩
  · exact written.rows n k there

/-- **One act** gives headings no meshes but those of their texts. -/
theorem Step.written (step : Step w a w') (apart : Extrusion.Apart kind)
    (shares : a.Shares fonts kind) (made : w.store.Made fonts kind)
    (written : w.Written sheets) : w'.Written (sheets ++ a.sheet.toList) := by
  cases step with
  | set o loader leaves =>
    obtain ⟨rfl, params⟩ := shares o leaves rfl
    exact written.hang (freshRow_ofLeaves made apart params loader leaves)
  | compile o loader markup =>
    obtain ⟨rfl, params⟩ := shares o (leavesOf markup) rfl
    exact written.hang
      (freshRow_ofLeaves (made_clear _ _ w.store) apart params loader (leavesOf markup))
  | clear => exact (List.append_nil sheets).symm ▸ ⟨written.length, written.rows⟩
  | take here yields =>
    refine (List.append_nil sheets).symm ▸ written.set here (fun o leaves fresh => ?_) _ _
    rw [yields.rest]
    exact fresh
  | apply own here =>
    exact (List.append_nil sheets).symm ▸
      written.set here (fun o leaves fresh => fresh.apply _ _) _ _

end Step

section Run

variable {w w' : Stage} {acts : List Act} {fonts : Family} {kind : Extrusion → Prop}
  {sheets : List (Options × List Leaf)}

/-- A run keeps to a store of things made for their keys. -/
theorem Run.made (run : Run w acts w') (shares : ∀ a ∈ acts, a.Shares fonts kind)
    (made : w.store.Made fonts kind) : w'.store.Made fonts kind := by
  induction run with
  | nil => exact made
  | cons step _ ih =>
    obtain ⟨hfirst, hrest⟩ := List.forall_mem_cons.1 shares
    exact ih hrest (step.made hfirst made)

/-- **A run** gives headings no meshes but those of their texts. -/
theorem Run.written (run : Run w acts w') (apart : Extrusion.Apart kind)
    (shares : ∀ a ∈ acts, a.Shares fonts kind) (made : w.store.Made fonts kind)
    (written : w.Written sheets) : w'.Written (sheets ++ acts.filterMap Act.sheet) := by
  induction run generalizing sheets with
  | nil => exact (List.append_nil sheets).symm ▸ written
  | @cons w w₁ w₂ a acts step _ ih =>
    obtain ⟨hfirst, hrest⟩ := List.forall_mem_cons.1 shares
    have hsheets : a.sheet.toList ++ acts.filterMap Act.sheet = (a :: acts).filterMap Act.sheet := by
      rw [List.filterMap_cons]
      cases a.sheet <;> rfl
    rw [← hsheets, ← List.append_assoc]
    exact ih hrest (step.made hfirst made) (step.written apart hfirst made written)

/-- **Without a clearing** nothing under a key is replaced, and no texture but by another for
its address. -/
theorem Run.keeps (run : Run w acts w') (quiet : ∀ a ∈ acts, ¬ a.clears) :
    w.store.Keeps w'.store ∧ ∀ url t, w.store.textures.get? url = some t →
      (∀ i d j, .apply i d j ∈ acts → d.errand.request.url = url → ∀ t',
        d.result = some (.ok t') → t' = t) → w'.store.textures.get? url = some t := by
  induction run with
  | nil => exact ⟨.refl _, fun _ _ there _ => there⟩
  | cons step _ ih =>
    obtain ⟨hfirst, hrest⟩ := List.forall_mem_cons.1 quiet
    obtain ⟨hkeeps, htextures⟩ := step.keeps hfirst
    obtain ⟨hkeeps', htextures'⟩ := ih hrest
    refine ⟨hkeeps.trans hkeeps', fun url t there same => ?_⟩
    refine htextures' url t (htextures url t there ?_) ?_
    · rintro i d j rfl
      exact same i d j List.mem_cons_self
    · exact fun i d j hmem => same i d j (List.mem_cons_of_mem _ hmem)

/-- **A store shows in nothing but speed.** Programs run over one store, their headings set
by any options with one family and finite measures.

Every mesh in any heading, at any time, is that of a text at its place, with the solid and
the materials that would be made for it anew; and the next heading to be set gets such a
mesh for each of its texts that is not blank, whatever the store has. Until the next
clearing what is kept under a key stays there, and so does a texture unless a load brings
another for its address. -/
theorem store_transparent (run : Run .start acts w)
    (shares : ∀ a ∈ acts, a.Shares fonts Extrusion.IsFinite) :
    (∀ (n : Nat) (h : Heading), w.headings[n]? = some h → ∃ o leaves,
      (acts.filterMap Act.sheet)[n]? = some (o, leaves) ∧ FreshRow o leaves h.row) ∧
    (∀ a w', Step w a w' → a.Shares fonts Extrusion.IsFinite → ∀ o leaves,
      a.sheet = some (o, leaves) → ∃ h, w'.headings[w.headings.length]? = some h ∧
        ∀ (i : Nat) value color style, leaves[i]? = some (.text value color style) →
          Text.core value.toList ≠ [] → ∃ g, h.row.child? i = some g ∧
            g.children = [.mesh (freshMesh o value color style)]) ∧
    ∀ later w', Run w later w' → (∀ a ∈ later, ¬ a.clears) →
      w.store.Keeps w'.store ∧ ∀ url t, w.store.textures.get? url = some t →
        (∀ i d j, .apply i d j ∈ later → d.errand.request.url = url → ∀ t',
          d.result = some (.ok t') → t' = t) → w'.store.textures.get? url = some t := by
  have apart := Extrusion.apart_finite
  have made : w.store.Made fonts Extrusion.IsFinite :=
    run.made shares (made_start fonts _)
  refine ⟨?_, ?_, fun later w' rest quiet => rest.keeps quiet⟩
  · exact (run.written apart shares (made_start fonts _) Stage.written_start).rows
  · intro a w' step hshares o leaves hsheet
    obtain ⟨rfl, params⟩ := hshares o leaves hsheet
    cases step with
    | set o loader leaves =>
      cases hsheet
      exact ⟨_, List.getElem?_concat_length, fun i value color style hleaf ink =>
        child?_ofLeaves made apart params loader hleaf ink⟩
    | compile o loader markup =>
      cases hsheet
      exact ⟨_, List.getElem?_concat_length, fun i value color style hleaf ink =>
        child?_ofLeaves (made_clear _ _ w.store) apart params loader hleaf ink⟩
    | clear | take | apply => cases hsheet

end Run

/-- A text is set twice, in two colors. The second time its solid is there already, and its
mesh is what it would have been otherwise. -/
theorem second_setting_fresh :
    ∃ w w' h g, Run .start [.set .inkless Loader.offline [.text "a" "white" .regular]] w ∧
      w.store.geometries.size = 1 ∧
      Step w (.set .inkless Loader.offline [.text "a" "red" .regular]) w' ∧
      w'.headings[1]? = some h ∧ h.row.child? 0 = some g ∧
      g.children = [.mesh (freshMesh .inkless "a" "red" .regular)] := by
  have shares : ∀ color, (Act.set .inkless Loader.offline [.text "a" color .regular]).Shares
      Options.inkless.fonts Extrusion.IsFinite := by
    rintro color o leaves hsheet
    cases hsheet
    exact ⟨rfl, rfl, rfl, rfl, rfl, rfl⟩
  have run : Run .start [.set .inkless Loader.offline [.text "a" "white" .regular]] _ :=
    .cons (.set _ _ _) .nil
  obtain ⟨-, placed, -⟩ := store_transparent run (List.forall_mem_singleton.2 (shares "white"))
  obtain ⟨h, here, hmesh⟩ := placed _ _ (.set _ _ _) (shares "red") _ _ rfl
  obtain ⟨g, hg, hchildren⟩ := hmesh 0 "a" "red" .regular rfl (by decide)
  exact ⟨_, _, h, g, run, rfl, .set _ _ _, here, hg, hchildren⟩

end Marquee
