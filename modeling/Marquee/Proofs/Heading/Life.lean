import Marquee.Proofs.Heading.Apply
import Marquee.Proofs.Heading.Row

/-!
# The Life of a Heading

A heading is set once and lives through waiting and through applications of loads, each
over a store in whatever state it is then. Its row keeps its shape all the while: a place
is left as it was set until a load swaps it, and from then on it is filled with a picture.

Which places a load swaps was settled when the row was laid out: they are those of emotes
whose picture the store lacked. So an emote shows a placeholder or a full stack at any
time, and nothing else of the row ever changes.

## Main statements

* `Life.kept` — whatever is applied to a heading, each place is as it was set or filled;
* `emotes_always_shown` — what the emotes of a heading show at any time.
-/

namespace Marquee

open Fetch Markup Scene

namespace Scene.Group

/-- A group that shows a placeholder and nothing else. -/
def IsPlaceholder (g : Group) : Prop :=
  ∃ sprite : Sprite, g.children = [.sprite sprite] ∧ sprite.placeholder = true

/-- A group that shows so many sprites of one picture, and nothing else. -/
def IsStack (g : Group) (n : Nat) : Prop :=
  g.children.length = n ∧ ∃ t, ∀ c ∈ g.children, ∃ sprite : Sprite,
    c = .sprite sprite ∧ sprite.placeholder = false ∧ sprite.material = .textured t

/-- A placeholder is not a picture. -/
theorem IsPlaceholder.not_isStack {g : Group} {n : Nat} (h : g.IsPlaceholder) :
    ¬ g.IsStack n := by
  obtain ⟨sprite, hchildren, hplace⟩ := h
  rintro ⟨-, t, hall⟩
  obtain ⟨sprite', heq, hfull, -⟩ := hall (.sprite sprite) (hchildren ▸ List.mem_cons_self)
  cases heq
  rw [hplace] at hfull
  cases hfull

end Scene.Group

namespace Heading

/-- A group with the sprites of a picture is a stack. -/
theorem Stack.isStack_of_children {stack : Stack} {t : Texture} {g : Group}
    (children : g.children = stack.sprites t) : g.IsStack stack.count.toNat := by
  rw [Group.IsStack, children]
  refine ⟨stack.length_sprites t, t, fun c hc => ?_⟩
  obtain ⟨i, -, rfl⟩ := List.mem_map.1 hc
  exact ⟨_, rfl, rfl, rfl⟩

/-! ### Lives -/

/-- Whether a load put its picture into the places that waited for it. -/
def Outcome.IsSwapped : Outcome → Prop
  | swapped _ _ => True
  | _ => False

/-- What can become of a heading, with the loads that were applied to it, the last one
first, and what came of each. -/
inductive Life (h₀ : Heading) : List (Delivery × Outcome) → Heading → Prop
  | set : Life h₀ [] h₀
  /-- Some of its loads are asked or taken; which ones does not matter to the row. -/
  | wait {past : List (Delivery × Outcome)} {h : Heading} (loads : List Load) :
      Life h₀ past h → Life h₀ past { h with loads }
  /-- A load is applied over a store, in whatever state it is. -/
  | apply {past : List (Delivery × Outcome)} {h : Heading} (d : Delivery) (s : Store) :
      Life h₀ past h → Life h₀ ((d, (h.apply d s).1) :: past) (h.apply d s).2.2.1

/-- A life goes on where another one ended. -/
theorem Life.trans {h₀ h h' : Heading} {past more : List (Delivery × Outcome)}
    (life : Life h₀ past h) (rest : Life h more h') : Life h₀ (more ++ past) h' := by
  induction rest with
  | set => exact life
  | wait loads _ ih => exact .wait loads ih
  | apply d s _ ih => exact .apply d s ih

/-- Whether some load put its picture into a place. -/
def Served (past : List (Delivery × Outcome)) (i : Nat) : Prop :=
  ∃ p ∈ past, p.2.IsSwapped ∧ i ∈ p.1.errand.request.slots

/-- A place is served by a load that was swapped in there, first or later. -/
theorem served_cons {p : Delivery × Outcome} {past : List (Delivery × Outcome)} {i : Nat} :
    Served (p :: past) i ↔ p.2.IsSwapped ∧ i ∈ p.1.errand.request.slots ∨ Served past i := by
  rw [Served, List.exists_mem_cons_iff]
  rfl

/-- What a heading keeps of the one that was set, given the loads that were applied. -/
structure Kept (h₀ : Heading) (past : List (Delivery × Outcome)) (h : Heading) : Prop where
  stack : h.stack = h₀.stack
  name : h.row.name = h₀.row.name
  transform : h.row.transform = h₀.row.transform
  length : h.row.children.length = h₀.row.children.length
  unserved : ∀ i, ¬ Served past i → h.row.child? i = h₀.row.child? i
  served : ∀ i, Served past i → ∃ t, h.row.child? i = (h₀.row.child? i).map (h₀.stack.fill t)

variable {h₀ h : Heading} {past : List (Delivery × Outcome)}

/-- Without a load everything is kept. -/
theorem Kept.refl (h : Heading) : Kept h [] h := by
  refine ⟨rfl, rfl, rfl, rfl, fun _ _ => rfl, ?_⟩
  rintro i ⟨p, hp, -⟩
  cases hp

/-- A load that swaps nothing makes no difference. -/
theorem Kept.cons (kept : Kept h₀ past h) {p : Delivery × Outcome} (still : ¬ p.2.IsSwapped) :
    Kept h₀ (p :: past) h := by
  have hserved : ∀ i, Served (p :: past) i ↔ Served past i := by
    intro i
    rw [served_cons]
    exact ⟨fun h => h.resolve_left fun hp => still hp.1, .inr⟩
  refine ⟨kept.stack, kept.name, kept.transform, kept.length, ?_, ?_⟩
  · exact fun i hi => kept.unserved i fun h => hi ((hserved i).2 h)
  · exact fun i hi => kept.served i ((hserved i).1 hi)

/-- A load that swaps fills its places, some of them not for the first time. -/
theorem Kept.swap (kept : Kept h₀ past h) {d : Delivery} {out : Outcome}
    (swapped : out.IsSwapped) (t : Texture) :
    Kept h₀ ((d, out) :: past)
      { h with row := (Heading.swap h.stack t d.errand.request.slots h.row).1 } := by
  obtain ⟨hname, htransform, hlength⟩ := swap_row h.stack t d.errand.request.slots h.row
  refine ⟨kept.stack, hname.trans kept.name, htransform.trans kept.transform,
    hlength.trans kept.length, ?_, ?_⟩
  · intro i hi
    rw [served_cons, not_or, not_and] at hi
    obtain ⟨hslot, hpast⟩ := hi
    rw [child?_swap, if_neg (hslot swapped)]
    exact kept.unserved i hpast
  · intro i hi
    rw [child?_swap]
    by_cases hslot : i ∈ d.errand.request.slots
    · -- the picture that was there is gone, so both rows are filled alike
      refine ⟨t, ?_⟩
      rw [if_pos hslot, kept.stack]
      by_cases hpast : Served past i
      · obtain ⟨t', ht'⟩ := kept.served i hpast
        rw [ht', Option.map_map]
        rfl
      · rw [kept.unserved i hpast]
    · rw [if_neg hslot]
      rcases served_cons.1 hi with ⟨-, hmem⟩ | hpast
      · exact absurd hmem hslot
      · exact kept.served i hpast

/-- **What stays.** Each place is as it was set, or filled with a picture. -/
theorem Life.kept (life : Life h₀ past h) : Kept h₀ past h := by
  induction life with
  | set => exact .refl h₀
  | wait loads _ ih => exact ⟨ih.stack, ih.name, ih.transform, ih.length, ih.unserved, ih.served⟩
  | @apply past h d s _ ih =>
    rcases apply_cases d h s with ⟨-, hout, heq⟩ | ⟨-, hout, heq⟩ | ⟨t, -, -, hout, heq⟩
    · rw [hout, heq]
      exact ih.cons fun himp => himp
    · rw [hout, heq]
      exact ih.cons fun himp => himp
    · rw [hout, heq]
      exact ih.swap (by exact trivial) t

/-- What the group of an emote shows: a placeholder, or a stack of so many sprites if and
only if the emote has its picture. -/
structure EmoteShown (g : Group) (n : Nat) (pictured : Prop) : Prop where
  shape : g.IsPlaceholder ∨ g.IsStack n
  nonempty : g.children ≠ []
  stack_iff : g.IsStack n ↔ pictured

/-- An emote that has a picture is shown if a stack stands there. -/
theorem EmoteShown.of_stack {g : Group} {n : Nat} {pictured : Prop} (stack : g.IsStack n)
    (pos : 0 < n) (h : pictured) : EmoteShown g n pictured := by
  refine ⟨.inr stack, fun hnil => ?_, fun _ => h, fun _ => stack⟩
  rw [← stack.1, hnil] at pos
  exact Nat.lt_irrefl 0 pos

/-- An emote that has none is shown if a placeholder stands there. -/
theorem EmoteShown.of_placeholder {g : Group} {n : Nat} {pictured : Prop}
    (place : g.IsPlaceholder) (h : ¬ pictured) : EmoteShown g n pictured := by
  refine ⟨.inl place, fun hnil => ?_, fun hstack => absurd hstack place.not_isStack, fun hp =>
    absurd hp h⟩
  obtain ⟨sprite, hchildren, -⟩ := place
  rw [hnil] at hchildren
  cases hchildren

/-- A stack has as many layers as were asked for, but no less than one. -/
theorem Stack.toNat_count_ofOptions (o : Options) :
    (Stack.ofOptions o).count.toNat = max 1 o.emotes.depthSegments.toNat := by
  rw [Stack.count]
  split
  · next hzero =>
    rw [show o.emotes.depthSegments = 0 from hzero]
    rfl
  · next hne =>
    have hpos : o.emotes.depthSegments.toNat ≠ 0 := fun hz => hne (UInt32.toNat_inj.1 hz)
    exact (Nat.max_eq_right (Nat.pos_of_ne_zero hpos)).symm

/-- An emote just set shows the picture that the store had, if it had one. -/
theorem emoteShown_of_children {o : Options} {s : Store} {id : String} {g : Group}
    (children : g.children = shown o s id) :
    EmoteShown g (Stack.ofOptions o).count.toNat
      (s.textures.get? (o.emotes.urlFor id)).isSome := by
  rw [shown] at children
  rcases hget : s.textures.get? (o.emotes.urlFor id) with _ | t
  · rw [hget] at children
    exact .of_placeholder ⟨_, children, rfl⟩ Bool.false_ne_true
  · rw [hget] at children
    exact .of_stack (Stack.isStack_of_children children) (Stack.count_pos _) rfl

section Set

variable {o : Options} {loader : Loader} {leaves : List Leaf} {s : Store} {h₀ h : Heading}
  {past : List (Delivery × Outcome)}

/-- A row has one child to each leaf. -/
theorem length_children (set : (ofLeaves o loader leaves s).1 = h₀) :
    h₀.row.children.length = leaves.length := by
  have hrow : h₀.row.children = (Draft.ofLeaves o leaves s).groups.map Group.toNode := by
    rw [← set]
    rfl
  rw [hrow, List.length_map, (Draft.laid_ofLeaves o leaves s).length]

/-- The stack of a heading has the layers of its options. -/
theorem stack_count (set : (ofLeaves o loader leaves s).1 = h₀) :
    h₀.stack.count.toNat = max 1 o.emotes.depthSegments.toNat := by
  rw [← set, ← Stack.toNat_count_ofOptions]
  rfl

/-- The group of an emote after any applications. -/
theorem Life.emoteShown (set : (ofLeaves o loader leaves s).1 = h₀) (life : Life h₀ past h)
    {i : Nat} {id color : String} {style : Style}
    (hleaf : leaves[i]? = some (.emote id color style)) {g : Group}
    (hg : h.row.child? i = some g) :
    EmoteShown g (max 1 o.emotes.depthSegments.toNat)
      ((s.textures.get? (o.emotes.urlFor id)).isSome ∨ Served past i) := by
  obtain ⟨g₀, hg₀, hshown⟩ := (Draft.laid_ofLeaves o leaves s).emote i id color style hleaf
  have hset : h₀.row.child? i = some g₀ := by
    rw [← set]
    exact (Draft.child?_row _ i).trans hg₀
  by_cases served : Served past i
  · obtain ⟨t, ht⟩ := life.kept.served i served
    rw [hg, hset] at ht
    obtain rfl : g = h₀.stack.fill t g₀ := Option.some.inj ht
    rw [← stack_count set]
    exact .of_stack (Stack.isStack_of_children rfl) (Stack.count_pos _) (.inr served)
  · obtain rfl : g₀ = g := Option.some.inj (by rw [← hset, ← hg, life.kept.unserved i served])
    rw [or_iff_left served, ← Stack.toNat_count_ofOptions]
    exact emoteShown_of_children hshown

end Set

end Heading

end Marquee
