import Marquee.Proofs.Heading.Order
import Marquee.Proofs.Heading.Plan
import Marquee.Proofs.Stage.Transparent
import Mathlib.Data.List.DropRight

/-!
# Where Pictures Come From

What a stage shows is known from the acts that led to it. The loads that count for an
address are those that were issued for it since the last clearing and that succeeded; the
pictures that they brought, in the order in which they were applied, are what was
`delivered`. A store has under an address the last picture that was delivered for it.

A row takes pictures from the store when it is set, and from loads later. So each picture in
it was delivered for the address of the emote at its place, unless it came with a load that
another heading had issued: such a load names places of that other row.

## Main statements

* `delivered_concat` — what one more act delivers;
* `Step.sourced`, `Run.sourced` — the store has what was delivered last;
* `Stage.Pictured.arrives` — what a load brings to its places;
* `Step.pictured`, `Run.pictured` — a row shows what was delivered for its emotes;
* `texture_provenance` — both, for the runs of a program;
* `foreign_load_shown` — a load that is applied elsewhere may show in place of any emote.
-/

namespace Marquee

open Fetch Heading Markup Scene Stage

/-! ### What acts deliver -/

namespace Act

/-- The picture that an act brings for an address: it applies a load for that address that
succeeded, of the `first` heading or a later one. -/
def brings (first : Nat) (url : String) : Act → Option Texture
  | apply k d _ =>
    if first ≤ k ∧ d.errand.request.url = url then d.result.bind Except.toOption else none
  | _ => none

/-- What an act brings, it brings by a load that it applies. -/
theorem brings_eq_some_iff {first : Nat} {url : String} {a : Act} {t : Texture} :
    a.brings first url = some t ↔ ∃ k d j, a = .apply k d j ∧ first ≤ k ∧
      d.errand.request.url = url ∧ d.result = some (.ok t) := by
  constructor
  · intro brought
    cases a with
    | set | compile | clear | take => cases brought
    | apply k d j =>
      rw [brings] at brought
      split at brought
      · next hload =>
        obtain ⟨x | t', hresult, hok⟩ := Option.bind_eq_some_iff.1 brought
        · cases hok
        · cases hok
          exact ⟨k, d, j, rfl, hload.1, hload.2, hresult⟩
      · cases brought
  · rintro ⟨k, d, j, rfl, hfirst, hurl, hresult⟩
    rw [brings, if_pos ⟨hfirst, hurl⟩, hresult]
    rfl

end Act

/-- The acts since the last clearing. -/
def recent (acts : List Act) : List Act := acts.rtakeWhile fun a => !a.clears

/-- How many headings were set before the last clearing. The next one, if any, is the first
to issue loads after it. -/
def bygone (acts : List Act) : Nat :=
  (acts.rdropWhile fun a => !a.clears).dropLast.countP Act.sets

/-- The pictures that loads brought for an address, of those issued since the last clearing,
in the order in which they were applied. -/
def delivered (acts : List Act) (url : String) : List Texture :=
  (recent acts).filterMap (Act.brings (bygone acts) url)

/-- At some time a picture was one of those delivered for an address. -/
def Delivered (acts : List Act) (url : String) (t : Texture) : Prop :=
  ∃ before, before <+: acts ∧ t ∈ delivered before url

section Delivered

variable {past acts : List Act} {a : Act} {url : String} {t : Texture}

/-- At a clearing all headings set so far become bygone. -/
theorem bygone_concat_of_clears (clears : a.clears) :
    bygone (past ++ [a]) = past.countP Act.sets := by
  rw [bygone, List.rdropWhile_concat, clears, if_neg (by decide), List.dropLast_concat]

/-- No other act makes a heading bygone. -/
theorem bygone_concat (quiet : a.clears = false) : bygone (past ++ [a]) = bygone past := by
  rw [bygone, List.rdropWhile_concat, quiet, if_pos (by decide)]
  rfl

/-- Nothing counts as delivered right after a clearing. -/
theorem delivered_concat_of_clears (clears : a.clears) : delivered (past ++ [a]) url = [] := by
  rw [delivered, recent, List.rtakeWhile_concat, clears, if_neg (by decide)]
  rfl

/-- **One more act** delivers what it brings, if it clears nothing. -/
theorem delivered_concat (quiet : a.clears = false) : delivered (past ++ [a]) url =
    delivered past url ++ (a.brings (bygone past) url).toList := by
  have hrecent : recent (past ++ [a]) = recent past ++ [a] := by
    rw [recent, List.rtakeWhile_concat, quiet, if_pos (by decide)]
    rfl
  rw [delivered, bygone_concat quiet, hrecent, List.filterMap_append]
  cases hbrought : a.brings (bygone past) url <;> simp [delivered, hbrought]

/-- An act that brings nothing delivers nothing. -/
theorem delivered_concat_of_none (quiet : a.clears = false)
    (nothing : a.brings (bygone past) url = none) :
    delivered (past ++ [a]) url = delivered past url := by
  rw [delivered_concat quiet, nothing]
  exact List.append_nil _

/-- A picture that was delivered came by a load for its address. -/
theorem mem_delivered_iff : t ∈ delivered acts url ↔ ∃ k d j,
    .apply k d j ∈ recent acts ∧ bygone acts ≤ k ∧ d.errand.request.url = url ∧
      d.result = some (.ok t) := by
  rw [delivered, List.mem_filterMap]
  constructor
  · rintro ⟨a, ha, brought⟩
    obtain ⟨k, d, j, rfl, hload⟩ := Act.brings_eq_some_iff.1 brought
    exact ⟨k, d, j, ha, hload⟩
  · rintro ⟨k, d, j, ha, hload⟩
    exact ⟨_, ha, Act.brings_eq_some_iff.2 ⟨k, d, j, rfl, hload⟩⟩

/-- What was delivered at some time came by a load for its address. -/
theorem Delivered.exists_load (arrived : Delivered acts url t) : ∃ k d j,
    .apply k d j ∈ acts ∧ d.errand.request.url = url ∧ d.result = some (.ok t) := by
  obtain ⟨before, first, ht⟩ := arrived
  obtain ⟨k, d, j, hmem, -, hload⟩ := mem_delivered_iff.1 ht
  exact ⟨k, d, j, first.subset ((List.rtakeWhile_suffix _ _).subset hmem), hload⟩

/-- What was delivered once was, whatever comes after. -/
theorem Delivered.concat (arrived : Delivered past url t) (a : Act) :
    Delivered (past ++ [a]) url t := by
  obtain ⟨before, first, ht⟩ := arrived
  exact ⟨before, first.trans (List.prefix_append _ _), ht⟩

end Delivered

/-! ### What the store has -/

/-- The store of a stage has what was delivered last, and of the loads that it waits for those
are current that were issued since the last clearing. -/
structure Stage.Sourced (past : List Act) (w : Stage) : Prop where
  sound : w.Sound
  length : w.headings.length = past.countP Act.sets
  bygone_le : bygone past ≤ w.headings.length
  current_iff : ∀ k e, w.Awaits k e → (e.generation = w.store.generation ↔ bygone past ≤ k)
  stored : ∀ url, w.store.textures.get? url = (delivered past url).getLast?

section Sourced

variable {past : List Act} {w w' : Stage} {a : Act}

/-- A new store has nothing, and nothing was delivered. -/
theorem Stage.sourced_start : start.Sourced [] := by
  refine ⟨.start, rfl, Nat.le_refl _, ?_, fun url => rfl⟩
  rintro k e (⟨h, here, -⟩ | ⟨d, taken, -⟩)
  · cases here
  · cases taken

/-- A heading that is set issues loads of the store's generation. -/
theorem Stage.Sourced.set (sourced : w.Sourced past) (o : Options) (loader : Loader)
    (leaves : List Leaf) : (w.hang (ofLeaves o loader leaves w.store)).Sourced
      (past ++ [Act.set o loader leaves]) := by
  have hgeneration : (ofLeaves o loader leaves w.store).2.2.generation = w.store.generation :=
    congrArg Store.Ledger.generation (ledger_ofLeaves o loader leaves w.store)
  have hbygone : bygone (past ++ [Act.set o loader leaves]) = bygone past := bygone_concat rfl
  refine ⟨sourced.sound.hang o loader leaves, ?_, ?_, fun k e held => ?_, fun url => ?_⟩
  · rw [Stage.hang, List.length_append, List.countP_append, sourced.length]
    rfl
  · rw [hbygone, Stage.hang, List.length_append]
    exact Nat.le_add_right_of_le sourced.bygone_le
  · rw [hbygone, show (w.hang (ofLeaves o loader leaves w.store)).store.generation =
      w.store.generation from hgeneration]
    rcases awaits_hang held with old | ⟨rfl, own⟩
    · exact sourced.current_iff k e old
    · exact iff_of_true (generation_of_mem own) sourced.bygone_le
  · rw [delivered_concat_of_none rfl rfl]
    exact (textures_ofLeaves o loader leaves w.store url).trans (sourced.stored url)

/-- A clearing leaves no texture, and no load that could bring one. -/
theorem Stage.Sourced.clear (sourced : w.Sourced past) : w.cleared.Sourced (past ++ [Act.clear]) := by
  have hbygone : bygone (past ++ [Act.clear]) = w.headings.length :=
    (bygone_concat_of_clears rfl).trans sourced.length.symm
  refine ⟨sourced.sound.cleared, ?_, Nat.le_of_eq hbygone, fun k e held => ?_, fun url => ?_⟩
  · rw [List.countP_append, ← sourced.length]
    rfl
  · have hissued := (sourced.sound.issued k e held).generation_le
    have hlt : k < w.headings.length := sourced.sound.awaits_lt held
    rw [hbygone]
    exact iff_of_false (Nat.ne_of_lt (Nat.lt_succ_of_le hissued)) (Nat.not_le_of_lt hlt)
  · rw [delivered_concat_of_clears rfl]
    rfl

/-- To compile is to clear and then to set. -/
theorem Stage.hang_compile (w : Stage) (o : Options) (loader : Loader) (markup : String) :
    w.hang (Heading.compile o loader markup w.store) =
      w.cleared.hang (ofLeaves o loader (leavesOf markup) w.cleared.store) := rfl

/-- A pass clears the store and issues loads of the next generation. -/
theorem Stage.Sourced.compile (sourced : w.Sourced past) (o : Options) (loader : Loader)
    (markup : String) : (w.hang (Heading.compile o loader markup w.store)).Sourced
      (past ++ [Act.compile o loader markup]) := by
  have hang := sourced.clear.set o loader (leavesOf markup)
  have hbygone : bygone (past ++ [Act.compile o loader markup]) =
      bygone ((past ++ [Act.clear]) ++ [Act.set o loader (leavesOf markup)]) := by
    rw [bygone_concat_of_clears rfl, bygone_concat rfl, bygone_concat_of_clears rfl]
  have hdelivered : ∀ url, delivered (past ++ [Act.compile o loader markup]) url =
      delivered ((past ++ [Act.clear]) ++ [Act.set o loader (leavesOf markup)]) url := by
    intro url
    rw [delivered_concat_of_clears rfl, delivered_concat rfl, delivered_concat_of_clears rfl]
    rfl
  rw [Stage.hang_compile]
  refine ⟨hang.sound, hang.length.trans ?_, hbygone ▸ hang.bygone_le, fun k e held => ?_,
    fun url => ?_⟩
  · rw [List.countP_append, List.countP_append, List.countP_append]
    rfl
  · rw [hbygone]
    exact hang.current_iff k e held
  · rw [hdelivered]
    exact hang.stored url

/-- Taking a load changes nothing in the store. -/
theorem Stage.Sourced.take (sourced : w.Sourced past) {i : Nat} {h after : Heading} {d : Delivery}
    (here : w.headings[i]? = some h) (yields : h.Yields w.store d after) :
    Sourced (past ++ [Act.take i d]) ⟨w.store, w.headings.set i after, (i, d) :: w.taken⟩ := by
  refine ⟨sourced.sound.take here yields, ?_, ?_, fun k e held => ?_, fun url => ?_⟩
  · rw [List.length_set, List.countP_append, sourced.length]
    rfl
  · rw [bygone_concat rfl, List.length_set]
    exact sourced.bygone_le
  · rw [bygone_concat rfl]
    exact sourced.current_iff k e (awaits_take here yields held)
  · rw [delivered_concat_of_none rfl rfl]
    exact sourced.stored url

/-- What a load brings is the picture that it has for the store. -/
theorem Stage.Sourced.brings_eq (sourced : w.Sourced past) {k : Nat} {d : Delivery}
    {taken : List (Nat × Delivery)} (held : w.taken.Perm ((k, d) :: taken)) (j : Nat)
    (url : String) : (Act.apply k d j).brings (bygone past) url =
      if d.errand.request.url = url then picture? d w.store else none := by
  have current := sourced.current_iff k d.errand
    (.inr ⟨d, held.symm.subset List.mem_cons_self, rfl⟩)
  rw [Act.brings, picture?]
  simp only [current]
  by_cases hurl : d.errand.request.url = url
  · simp [hurl]
  · simp [hurl]

/-- A load that is applied stores what it brings under its address. -/
theorem Stage.Sourced.apply (sourced : w.Sourced past) {k j : Nat} {h : Heading} {d : Delivery}
    {taken : List (Nat × Delivery)} (held : w.taken.Perm ((k, d) :: taken))
    (here : w.headings[j]? = some h) :
    (w.put j (h.apply d w.store) taken).Sourced (past ++ [Act.apply k d j]) := by
  have hgeneration : (h.apply d w.store).2.2.2.generation = w.store.generation := generation_apply
  refine ⟨sourced.sound.put held here, ?_, ?_, fun i e waits => ?_, fun url => ?_⟩
  · rw [Stage.put, List.length_set, List.countP_append, sourced.length]
    rfl
  · rw [bygone_concat rfl, Stage.put, List.length_set]
    exact sourced.bygone_le
  · rw [bygone_concat rfl, show (w.put j (h.apply d w.store) taken).store.generation =
      w.store.generation from hgeneration]
    exact sourced.current_iff i e (awaits_put held here waits)
  · have hbrings := sourced.brings_eq held j url
    rcases hpicture : picture? d w.store with _ | t
    · rw [hpicture, ite_self] at hbrings
      rw [delivered_concat_of_none rfl hbrings, Stage.put, apply_of_picture?_none hpicture]
      exact sourced.stored url
    · rw [Stage.put, apply_of_picture?_some hpicture]
      refine (Store.Shelf.get?_put _ _ _ _).trans ?_
      by_cases hurl : d.errand.request.url = url
      · rw [delivered_concat rfl, hbrings, if_pos hurl, if_pos hurl.symm, hpicture]
        exact List.getLast?_concat.symm
      · rw [if_neg hurl] at hbrings
        rw [delivered_concat_of_none rfl hbrings, if_neg (Ne.symm hurl)]
        exact sourced.stored url

/-- **One act** leaves the store with what was delivered last. -/
theorem Step.sourced (step : Step w a w') (sourced : w.Sourced past) : w'.Sourced (past ++ [a]) := by
  cases step with
  | set o loader leaves => exact sourced.set o loader leaves
  | compile o loader markup => exact sourced.compile o loader markup
  | clear => exact sourced.clear
  | take here yields => exact sourced.take here yields
  | apply held here => exact sourced.apply held here

/-- **A run** leaves the store with what was delivered last. -/
theorem Run.sourced {acts : List Act} (run : Run w acts w') (sourced : w.Sourced past) :
    w'.Sourced (past ++ acts) := by
  induction run generalizing past with
  | nil => exact (List.append_nil past).symm ▸ sourced
  | @cons w w₁ w₂ a acts step _ ih =>
    rw [List.append_cons]
    exact ih (step.sourced sourced)

end Sourced

/-! ### What rows show -/

/-- A sprite with some picture stands somewhere in a tree of nodes. -/
inductive Scene.Node.Shows (t : Texture) : Node → Prop
  | sprite {s : Sprite} (textured : s.material.texture = some t) : Shows t (.sprite s)
  | group {name : String} {transform : Space.Transform} {children : List Node} {c : Node}
      (child : c ∈ children) (shows : Shows t c) : Shows t (.group name transform children)

/-- A picture was delivered for the address of the emote in some place. -/
def DeliveredTo (acts : List Act) (o : Options) (leaves : List Leaf) (i : Nat) (t : Texture) :
    Prop :=
  ∃ id color style, leaves[i]? = some (.emote id color style) ∧
    Delivered acts (o.emotes.urlFor id) t

/-- A load that another heading issued was applied to this one, and brought a picture to some
place: nothing had been cleared since it was issued. -/
def Misdelivered (acts : List Act) (n i : Nat) (t : Texture) : Prop :=
  ∃ before k d, before ++ [.apply k d n] <+: acts ∧ bygone before ≤ k ∧ k ≠ n ∧
    i ∈ d.errand.request.slots ∧ d.result = some (.ok t)

/-- Every picture in the row of a heading was delivered for the emote in its place, unless a
load of another heading brought it there. -/
def PicturedRow (acts : List Act) (n : Nat) (o : Options) (leaves : List Leaf) (row : Group) :
    Prop :=
  ∀ (i : Nat) c t, row.children[i]? = some c → c.Shows t →
    DeliveredTo acts o leaves i t ∨ Misdelivered acts n i t

/-- The places of a request are those of emotes with its address. -/
def Places (o : Options) (leaves : List Leaf) (r : Request) : Prop :=
  ∀ i ∈ r.slots, ∃ id color style,
    leaves[i]? = some (.emote id color style) ∧ o.emotes.urlFor id = r.url

section Shows

variable {stack : Stack} {t p : Texture} {g : Group}

/-- The sprites of a picture show no other. -/
theorem eq_of_shows_sprites {c : Node} (hc : c ∈ stack.sprites p) (shows : c.Shows t) : t = p := by
  obtain ⟨i, -, rfl⟩ := List.mem_map.1 hc
  cases shows with
  | sprite textured => exact (Option.some.inj textured).symm

/-- A group that is filled shows the picture that it is filled with. -/
theorem shows_fill_iff : (stack.fill p g).toNode.Shows t ↔ t = p := by
  constructor
  · intro shows
    cases shows with
    | group child shows => exact eq_of_shows_sprites child shows
  · rintro rfl
    have hlt : 0 < (stack.sprites t).length := stack.length_sprites t ▸ stack.count_pos
    obtain ⟨c, hc⟩ := List.exists_mem_of_length_pos hlt
    refine .group hc ?_
    obtain ⟨i, -, rfl⟩ := List.mem_map.1 hc
    exact .sprite rfl

/-- The group of a leaf shows a picture only if the store has it for the leaf. -/
theorem Heading.Stands.exists_emote_of_shows {o : Options} {s : Store} {leaf : Leaf}
    (stands : Stands o s leaf g) (shows : g.toNode.Shows t) : ∃ id color style,
      leaf = .emote id color style ∧ s.textures.get? (o.emotes.urlFor id) = some t := by
  cases stands with
  | text meshes =>
    cases shows with
    | group child shows =>
      obtain ⟨m, rfl⟩ := meshes _ child
      cases shows
  | @emote id color style g name children =>
    refine ⟨id, color, style, rfl, ?_⟩
    cases shows with
    | group child shows =>
      rw [children, shown] at child
      split at child
      · next t' hget =>
        rw [hget, eq_of_shows_sprites child shows]
      · obtain rfl := List.mem_singleton.1 child
        cases shows with
        | sprite textured => cases textured

/-- A load that has a picture shows it in its places, whichever heading it is applied to. -/
theorem exists_shows_apply {h : Heading} {d : Delivery} {s : Store} (hpicture : picture? d s = some t)
    {i : Nat} (hi : i ∈ d.errand.request.slots) (hg : h.row.child? i = some g) :
    ∃ c, (h.apply d s).2.2.1.row.children[i]? = some c ∧ c.Shows t := by
  obtain ⟨c, hc, hgroup⟩ := Option.bind_eq_some_iff.1 hg
  refine ⟨(h.stack.fill t g).toNode, ?_, shows_fill_iff.2 rfl⟩
  rw [apply_of_picture?_some hpicture, getElem?_children_swap, if_pos hi, hc, Option.map_some,
    Stack.fillIn, hgroup]

end Shows

section PicturedRow

variable {past : List Act} {a : Act} {n : Nat} {o : Options} {loader : Loader} {leaves : List Leaf}
  {row : Group}

/-- A row stays as it is, whatever act comes next. -/
theorem PicturedRow.concat (pictured : PicturedRow past n o leaves row) (a : Act) :
    PicturedRow (past ++ [a]) n o leaves row := by
  intro i c t hc shows
  rcases pictured i c t hc shows with
    ⟨id, color, style, hleaf, arrived⟩ | ⟨before, k, d, applied, hload⟩
  · exact .inl ⟨id, color, style, hleaf, arrived.concat a⟩
  · exact .inr ⟨before, k, d, applied.trans (List.prefix_append _ _), hload⟩

/-- A heading just set shows what the store has. -/
theorem picturedRow_ofLeaves {acts : List Act} {s : Store}
    (stored : ∀ url t, s.textures.get? url = some t → Delivered acts url t) :
    PicturedRow acts n o leaves (ofLeaves o loader leaves s).1.row := by
  intro i c t hc shows
  have hrow : (ofLeaves o loader leaves s).1.row.children =
    (Draft.ofLeaves o leaves s).groups.map Group.toNode := rfl
  rw [hrow, List.getElem?_map] at hc
  obtain ⟨g, hg, rfl⟩ := Option.map_eq_some_iff.1 hc
  have hchild : (ofLeaves o loader leaves s).1.row.child? i = some g :=
    (Draft.child?_row _ i).trans hg
  obtain ⟨leaf, hleaf, stands⟩ := stands_of_child? hchild
  obtain ⟨id, color, style, rfl, hget⟩ := stands.exists_emote_of_shows shows
  exact .inl ⟨id, color, style, hleaf, stored _ t hget⟩

/-- A picture that comes to some places. -/
theorem PicturedRow.swap {acts : List Act} (pictured : PicturedRow acts n o leaves row)
    {slots : List Nat} {p : Texture}
    (arrives : ∀ i ∈ slots, DeliveredTo acts o leaves i p ∨ Misdelivered acts n i p)
    (stack : Stack) : PicturedRow acts n o leaves (Heading.swap stack p slots row).1 := by
  intro i c t hc shows
  rw [getElem?_children_swap] at hc
  split at hc
  · next hi =>
    obtain ⟨c₀, hc₀, rfl⟩ := Option.map_eq_some_iff.1 hc
    rw [Stack.fillIn] at shows
    split at shows
    · obtain rfl := shows_fill_iff.1 shows
      exact arrives i hi
    · exact pictured i c₀ t hc₀ shows
  · exact pictured i c t hc shows

end PicturedRow

/-- The headings of a stage, one to a sheet. The row of one of them is pictured as its sheet
wants it, and any load that is waited for has the places of emotes with its address. -/
structure Stage.Pictured (past : List Act) (n : Nat) (w : Stage) : Prop where
  length : w.headings.length = (past.filterMap Act.sheet).length
  row : ∀ h o leaves, w.headings[n]? = some h →
    (past.filterMap Act.sheet)[n]? = some (o, leaves) → PicturedRow past n o leaves h.row
  places : ∀ k e, w.Awaits k e → ∃ o leaves,
    (past.filterMap Act.sheet)[k]? = some (o, leaves) ∧ Places o leaves e.request

section Pictured

variable {past : List Act} {n : Nat} {w w' : Stage} {a : Act}

/-- An empty stage shows nothing. -/
theorem Stage.pictured_start (n : Nat) : start.Pictured [] n := by
  refine ⟨rfl, ?_, ?_⟩
  · intro h o leaves here
    cases here
  · rintro k e (⟨h, here, -⟩ | ⟨d, taken, -⟩)
    · cases here
    · cases taken

/-- A heading that is set over a store of pictures that were delivered. -/
theorem Stage.Pictured.hang (pictured : w.Pictured past n) {o : Options} {leaves : List Leaf}
    (hsheet : a.sheet = some (o, leaves)) {loader : Loader} {s : Store}
    (stored : ∀ url t, s.textures.get? url = some t → Delivered (past ++ [a]) url t) :
    (w.hang (ofLeaves o loader leaves s)).Pictured (past ++ [a]) n := by
  have hsheets : (past ++ [a]).filterMap Act.sheet =
      past.filterMap Act.sheet ++ [(o, leaves)] := by
    rw [List.filterMap_append, List.filterMap_cons, hsheet]
    rfl
  refine ⟨?_, fun h o' leaves' here there => ?_, fun k e held => ?_⟩
  · rw [hsheets, Stage.hang, List.length_append, List.length_append, pictured.length]
    rfl
  · rw [hsheets] at there
    rcases getElem?_hang_cases here with old | ⟨rfl, rfl⟩
    · have hlt : n < (past.filterMap Act.sheet).length :=
        pictured.length ▸ (List.getElem?_eq_some_iff.1 old).1
      rw [List.getElem?_append_left hlt] at there
      exact (pictured.row h o' leaves' old there).concat a
    · rw [pictured.length, List.getElem?_concat_length] at there
      cases there
      exact picturedRow_ofLeaves stored
  · rw [hsheets]
    rcases awaits_hang held with old | ⟨rfl, own⟩
    · obtain ⟨o', leaves', hold, places⟩ := pictured.places k e old
      have hlt := (List.getElem?_eq_some_iff.1 hold).1
      exact ⟨o', leaves', (List.getElem?_append_left hlt).trans hold, places⟩
    · refine ⟨o, leaves, ?_, fun i hi => ?_⟩
      · rw [pictured.length]
        exact List.getElem?_concat_length
      · obtain ⟨id, color, style, hleaf, hurl, -⟩ := emote_of_slot own hi
        exact ⟨id, color, style, hleaf, hurl.symm⟩

/-- An act that sets nothing leaves the sheets as they are. -/
theorem Stage.Pictured.concat (pictured : w.Pictured past n) (hsheet : a.sheet = none) :
    w.Pictured (past ++ [a]) n := by
  have hsheets : (past ++ [a]).filterMap Act.sheet = past.filterMap Act.sheet := by
    rw [List.filterMap_append, List.filterMap_cons, hsheet]
    exact List.append_nil _
  refine ⟨hsheets ▸ pictured.length, fun h o leaves here there => ?_, fun k e held => ?_⟩
  · rw [hsheets] at there
    exact (pictured.row h o leaves here there).concat a
  · rw [hsheets]
    exact pictured.places k e held

/-- One heading is changed, and no load comes to be waited for. -/
theorem Stage.Pictured.set (pictured : w.Pictured past n) {j : Nat} {h : Heading}
    (row : ∀ o leaves, n = j → (past.filterMap Act.sheet)[n]? = some (o, leaves) →
      PicturedRow past n o leaves h.row) {s : Store} {taken : List (Nat × Delivery)}
    (awaits : ∀ k e, Awaits ⟨s, w.headings.set j h, taken⟩ k e → w.Awaits k e) :
    Pictured past n ⟨s, w.headings.set j h, taken⟩ := by
  refine ⟨List.length_set.trans pictured.length, fun h' o leaves here there => ?_,
    fun k e held => pictured.places k e (awaits k e held)⟩
  rcases getElem?_set_cases here with ⟨hnj, rfl⟩ | here
  · exact row o leaves hnj there
  · exact pictured.row h' o leaves here there

/-- **A load brings its picture to emotes with its address**, if it is applied to the heading
that issued it. -/
theorem Stage.Pictured.arrives (pictured : w.Pictured past n) {k : Nat} {d : Delivery}
    (held : w.Awaits k d.errand) {before : List Act}
    (applied : before ++ [.apply k d n] <+: past) (current : bygone before ≤ k) {t : Texture}
    (loaded : d.result = some (.ok t)) (arrived : Delivered past d.errand.request.url t)
    {o : Options} {leaves : List Leaf}
    (hsheet : (past.filterMap Act.sheet)[n]? = some (o, leaves)) :
    ∀ i ∈ d.errand.request.slots, DeliveredTo past o leaves i t ∨ Misdelivered past n i t := by
  intro i hi
  by_cases hkn : k = n
  · subst hkn
    obtain ⟨o', leaves', hsheet', places⟩ := pictured.places k d.errand held
    rw [hsheet] at hsheet'
    cases hsheet'
    obtain ⟨id, color, style, hleaf, hurl⟩ := places i hi
    exact .inl ⟨id, color, style, hleaf, hurl ▸ arrived⟩
  · exact .inr ⟨before, k, d, applied, current, hkn, hi, loaded⟩

/-- **A load that is applied** brings its picture to emotes with its address, or it went astray. -/
theorem Stage.Pictured.apply (pictured : w.Pictured past n) (sourced : w.Sourced past) {k j : Nat}
    {h : Heading} {d : Delivery} {taken : List (Nat × Delivery)}
    (held : w.taken.Perm ((k, d) :: taken)) (here : w.headings[j]? = some h) :
    (w.put j (h.apply d w.store) taken).Pictured (past ++ [Act.apply k d j]) n := by
  have hbrings := sourced.brings_eq held j d.errand.request.url
  rw [if_pos rfl] at hbrings
  have pictured : w.Pictured (past ++ [Act.apply k d j]) n := pictured.concat rfl
  refine pictured.set (fun o leaves hnj hsheet => ?_) fun i e => awaits_put held here
  subst hnj
  have row := pictured.row h o leaves here hsheet
  rcases hpicture : picture? d w.store with _ | t
  · rw [apply_of_picture?_none hpicture]
    exact row
  · rw [hpicture] at hbrings
    obtain ⟨_, _, _, heq, current, -, loaded⟩ := Act.brings_eq_some_iff.1 hbrings
    cases heq
    have arrived : Delivered (past ++ [Act.apply k d n]) d.errand.request.url t := by
      refine ⟨_, List.prefix_refl _, ?_⟩
      rw [delivered_concat rfl, hbrings]
      exact List.mem_append_right _ List.mem_cons_self
    have awaited : w.Awaits k d.errand := .inr ⟨d, held.symm.subset List.mem_cons_self, rfl⟩
    have brought := pictured.arrives awaited (List.prefix_refl _) current loaded arrived hsheet
    rw [apply_of_picture?_some hpicture]
    exact row.swap brought h.stack

/-- **One act** gives rows no pictures but those delivered for their emotes, and those of loads
that went astray. -/
theorem Step.pictured (step : Step w a w') (sourced : w.Sourced past)
    (pictured : w.Pictured past n) : w'.Pictured (past ++ [a]) n := by
  cases step with
  | set o loader leaves =>
    refine pictured.hang rfl fun url t hget => ?_
    rw [sourced.stored url] at hget
    exact Delivered.concat ⟨past, List.prefix_refl _, List.mem_of_getLast? hget⟩ _
  | compile o loader markup => exact pictured.hang rfl fun url t hget => by cases hget
  | clear =>
    have pictured : w.Pictured (past ++ [Act.clear]) n := pictured.concat rfl
    exact ⟨pictured.length, pictured.row, pictured.places⟩
  | @take i h after d here yields =>
    have pictured : w.Pictured (past ++ [Act.take i d]) n := pictured.concat rfl
    refine pictured.set (fun o leaves hni hsheet => ?_) fun k e => awaits_take here yields
    have row := pictured.row h o leaves (hni ▸ here) hsheet
    rw [yields.rest]
    exact row
  | apply held here => exact pictured.apply sourced held here

/-- **A run** likewise. -/
theorem Run.pictured {acts : List Act} (run : Run w acts w') (sourced : w.Sourced past)
    (pictured : w.Pictured past n) : w'.Pictured (past ++ acts) n := by
  induction run generalizing past with
  | nil => exact (List.append_nil past).symm ▸ pictured
  | @cons w w₁ w₂ a acts step _ ih =>
    rw [List.append_cons]
    exact ih (step.sourced sourced) (step.pictured sourced pictured)

end Pictured

/-- **Where pictures come from.** A program runs over a new store. Under an address the store has
the picture that was delivered for it last, of the loads for that very address that were issued
since the last clearing; and it has one as soon as such a load was applied.

Every picture in any row, at any time, stands in the place of an emote and was delivered for the
address of that emote, unless it is that of a load which another heading issued and which was
applied to this one before anything was cleared. -/
theorem texture_provenance {acts : List Act} {w : Stage} (run : Run .start acts w) :
    (∀ url, w.store.textures.get? url = (delivered acts url).getLast?) ∧
    (∀ url, w.store.textures.get? url ≠ none ↔ ∃ k d j t, .apply k d j ∈ recent acts ∧
      bygone acts ≤ k ∧ d.errand.request.url = url ∧ d.result = some (.ok t)) ∧
    ∀ (n : Nat) h, w.headings[n]? = some h → ∃ o leaves,
      (acts.filterMap Act.sheet)[n]? = some (o, leaves) ∧
        ∀ (i : Nat) c t, h.row.children[i]? = some c → c.Shows t →
          DeliveredTo acts o leaves i t ∨ Misdelivered acts n i t := by
  have sourced := run.sourced sourced_start
  refine ⟨sourced.stored, fun url => ?_, fun n h here => ?_⟩
  · rw [sourced.stored url, ne_eq, List.getLast?_eq_none_iff]
    constructor
    · intro hne
      obtain ⟨t, ht⟩ := List.exists_mem_of_ne_nil _ hne
      obtain ⟨k, d, j, hload⟩ := mem_delivered_iff.1 ht
      exact ⟨k, d, j, t, hload⟩
    · rintro ⟨k, d, j, t, hload⟩
      exact List.ne_nil_of_mem (mem_delivered_iff.2 ⟨k, d, j, hload⟩)
  · have pictured : w.Pictured acts n := run.pictured sourced_start (pictured_start n)
    have hlt : n < (acts.filterMap Act.sheet).length :=
      pictured.length ▸ (List.getElem?_eq_some_iff.1 here).1
    have hsheet := List.getElem?_eq_getElem hlt
    exact ⟨_, _, hsheet, pictured.row h _ _ here hsheet⟩

/-- An emote is set, its picture comes, and is in the store and in the row. The only load that was
applied is that of the heading itself, so the picture did not go astray. -/
theorem own_load_shown : ∃ acts w h c t, Run .start acts w ∧
    w.store.textures.get? (Options.inkless.emotes.urlFor "1") = some t ∧
    w.headings[0]? = some h ∧ h.row.children[0]? = some c ∧ c.Shows t ∧
    DeliveredTo acts .inkless [Leaf.emote "1" "white" .regular] 0 t := by
  let url := Options.inkless.emotes.urlFor "1"
  let d : Delivery := ⟨⟨⟨url, "1", [0]⟩, 0, 0⟩, some (.ok ⟨url, 1, 1⟩)⟩
  let acts : List Act := [.set .inkless pixelLoader [Leaf.emote "1" "white" .regular], .take 0 d,
    .apply 0 d 0]
  let set := ofLeaves .inkless pixelLoader [Leaf.emote "1" "white" .regular] {}
  let taken : Heading := { set.1 with loads := [] }
  have yields : set.1.Yields set.2.2 d taken := ⟨.refl _, rfl, fun hnone => by cases hnone⟩
  have run : Run .start acts ⟨(taken.apply d set.2.2).2.2.2, [(taken.apply d set.2.2).2.2.1], []⟩ :=
    .cons (.set _ _ _) (.cons (.take rfl yields) (.cons (.apply (.refl _) rfl) .nil))
  obtain ⟨stored, -, rows⟩ := texture_provenance run
  obtain ⟨o, leaves, hsheet, row⟩ := rows 0 _ rfl
  cases hsheet
  have hleaf : [Leaf.emote "1" "white" .regular][0]? = some (Leaf.emote "1" "white" .regular) := rfl
  obtain ⟨g, hg, -⟩ := stands_of_leaf .inkless pixelLoader {} hleaf
  have hpicture : picture? d set.2.2 = some ⟨url, 1, 1⟩ := rfl
  obtain ⟨c, hc, shows⟩ := exists_shows_apply (h := taken) hpicture List.mem_cons_self hg
  refine ⟨acts, _, _, c, ⟨url, 1, 1⟩, run, (stored url).trans rfl, rfl, hc, shows, ?_⟩
  refine (row 0 c _ hc shows).resolve_right ?_
  rintro ⟨before, k, e, applied, -, hne, -⟩
  have hmem := applied.subset (List.mem_append_right _ List.mem_cons_self)
  simp only [acts, List.mem_cons, reduceCtorEq, Act.apply.injEq, List.not_mem_nil, false_or,
    or_false] at hmem
  exact hne hmem.1

/-- **A load may be applied to a heading that did not issue it.** Then it shows its picture in the
places that it names, whatever emotes stand there. In the run below the only load that is applied is
for another emote than the one in its place. -/
theorem foreign_load_shown : ¬ ∀ acts w, Run .start acts w → ∀ (n : Nat) h,
    w.headings[n]? = some h → ∃ o leaves, (acts.filterMap Act.sheet)[n]? = some (o, leaves) ∧
      ∀ (i : Nat) c t, h.row.children[i]? = some c → c.Shows t →
        DeliveredTo acts o leaves i t := by
  intro all
  let url := Options.inkless.emotes.urlFor "1"
  let d : Delivery := ⟨⟨⟨url, "1", [0]⟩, 0, 0⟩, some (.ok ⟨url, 1, 1⟩)⟩
  let acts : List Act := [.set .inkless pixelLoader [Leaf.emote "1" "white" .regular],
    .set .inkless pixelLoader [Leaf.emote "2" "white" .regular], .take 0 d, .apply 0 d 1]
  let first := ofLeaves .inkless pixelLoader [Leaf.emote "1" "white" .regular] {}
  let second := ofLeaves .inkless pixelLoader [Leaf.emote "2" "white" .regular] first.2.2
  let taken : Heading := { first.1 with loads := [] }
  have yields : first.1.Yields second.2.2 d taken := ⟨.refl _, rfl, fun hnone => by cases hnone⟩
  have run : Run .start acts ⟨(second.1.apply d second.2.2).2.2.2,
      [taken, (second.1.apply d second.2.2).2.2.1], []⟩ :=
    .cons (.set _ _ _) (.cons (.set _ _ _) (.cons (.take rfl yields)
      (.cons (.apply (.refl _) rfl) .nil)))
  obtain ⟨o, leaves, hsheet, row⟩ := all acts _ run 1 _ rfl
  cases hsheet
  have hleaf : [Leaf.emote "2" "white" .regular][0]? = some (Leaf.emote "2" "white" .regular) := rfl
  obtain ⟨g, hg, -⟩ := stands_of_leaf .inkless pixelLoader first.2.2 hleaf
  have hpicture : picture? d second.2.2 = some ⟨url, 1, 1⟩ := rfl
  obtain ⟨c, hc, shows⟩ := exists_shows_apply (h := second.1) hpicture List.mem_cons_self hg
  obtain ⟨id, color, style, hemote, arrived⟩ := row 0 c _ hc shows
  obtain rfl : "2" = id := by
    cases hemote
    rfl
  obtain ⟨k, e, j, hmem, hurl, -⟩ := arrived.exists_load
  simp only [acts, List.mem_cons, reduceCtorEq, Act.apply.injEq, List.not_mem_nil, false_or,
    or_false] at hmem
  obtain ⟨-, rfl, -⟩ := hmem
  exact absurd hurl (by decide)

end Marquee
