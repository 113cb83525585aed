import Marquee.Proofs.Heading.Depicted
import Marquee.Proofs.Markup.Selected
import Marquee.Proofs.Stage.Transparent

/-!
# From an Escape to the Color of a Mesh

A color goes a long way: from the table of escapes into a token, from there into the pen, onto a
leaf, through the palette to three bytes, and under these to the materials that the store keeps.
The two tables agree, in that every color name an escape can select is in the palette. So the
mesh of a text has the color that its place in the markup selects, and nothing on the way can
change it: not the styles, emotes and unknown escapes in between, and not the materials that
the store has already.

## Main statements

* `Selects.known`, `known_leavesOf` — every color name in force is in the palette;
* `Run.paired` — a program never puts materials under another color;
* `markup_colored` — the colors of the meshes of some markup.
-/

namespace Marquee

open Fetch Heading Markup Scene Stage Store

/-! ### Names of the palette -/

/-- Whether a color name is in the palette. -/
def Color.Known (name : String) : Prop := (Color.ofName? name).isSome

instance (name : String) : Decidable (Color.Known name) :=
  inferInstanceAs (Decidable ((Color.ofName? name).isSome = true))

namespace Markup

/-- **The tables agree.** -/
theorem Escape.known_color {e : Escape} (he : e ∈ Escape.table) : Color.Known e.color := by
  have hall : ∀ e ∈ Escape.table, Color.Known e.color := by decide
  exact hall e he

/-- The color without any escape is in the palette. -/
theorem Escape.known_baseColor : Color.Known Escape.baseColor := by
  decide

/-- Whatever color is selected is in the palette. -/
theorem Selects.known {s : List Char} {i : Nat} {c : String} (h : Selects s i c) :
    Color.Known c := by
  cases h with
  | base => exact Escape.known_baseColor
  | nearest known => exact Escape.known_color known

/-- A color token names a color of the palette. -/
theorem Piece.known_color {r v : List Char} {name : String} (h : Piece r (.color name) v) :
    Color.Known name := by
  cases h with
  | color known => exact Escape.known_color known

/-- Tokens that dip the pen in known colors only make leaves of known colors. -/
theorem Reader.known_walk {ts : List Token} {p : Pen} (hp : Color.Known p.color)
    (hts : ∀ t ∈ ts, ∀ name, t.kind = .color name → Color.Known name) :
    ∀ leaf ∈ (walk p ts).1, Color.Known leaf.color := by
  induction ts generalizing p with
  | nil =>
    intro leaf hleaf
    cases hleaf
  | cons t ts ih =>
    obtain ⟨hfirst, hrest⟩ := List.forall_mem_cons.1 hts
    rw [walk]
    split
    · exact List.forall_mem_cons.2 ⟨hp, ih hp hrest⟩
    · exact List.forall_mem_cons.2 ⟨hp, ih hp hrest⟩
    · next name hkind => exact ih (hfirst name hkind) hrest
    · next style hkind => exact ih ((p.toggle_color style).symm ▸ hp) hrest
    · exact fun leaf hleaf => by cases hleaf

/-- The leaves of some markup name colors of the palette. -/
theorem known_leavesOf (markup : String) :
    ∀ leaf ∈ leavesOf markup, Color.Known leaf.color := by
  refine Reader.known_walk Escape.known_baseColor fun t ht name hkind => ?_
  rw [tokenize_eq] at ht
  rcases List.mem_append.1 ht with ht | ht
  · have hpiece := (piece_of_mem ht).1
    rw [hkind] at hpiece
    exact hpiece.known_color
  · rw [List.mem_singleton.1 ht] at hkind
    cases hkind

end Markup

/-! ### Materials in every run -/

section Paired

variable {w w' : Stage} {a : Act} {acts : List Act}

/-- A heading that is set puts no materials under another color. -/
theorem Heading.paired_ofLeaves {s : Store} (paired : s.Paired) (o : Options) (loader : Loader)
    (leaves : List Leaf) : (ofLeaves o loader leaves s).2.2.Paired :=
  (Draft.painted_ofLeaves o leaves paired).paired.of_eq
    (shelves_issueAll loader (Draft.ofLeaves o leaves s).requests
      (Draft.ofLeaves o leaves s).store).2.1

/-- No act puts materials under another color. -/
theorem Step.paired (step : Step w a w') (paired : w.store.Paired) : w'.store.Paired := by
  cases step with
  | set o loader leaves => exact paired_ofLeaves paired o loader leaves
  | compile o loader markup =>
    exact paired_ofLeaves (paired_clear w.store) o loader (leavesOf markup)
  | clear => exact paired_clear w.store
  | take => exact paired
  | apply own here => exact paired.of_eq (shelves_apply _ _ _).2

/-- **A run** puts no materials under another color. -/
theorem Run.paired (run : Run w acts w') (paired : w.store.Paired) : w'.store.Paired := by
  induction run with
  | nil => exact paired
  | cons step _ ih => exact ih (step.paired paired)

end Paired

/-! ### Colored headings -/

namespace Heading

/-- The mesh of every text of some markup that is not blank has the color in force at its place
in front, and the shade of that color on its sides. -/
def Colored (markup : String) (h : Heading) : Prop :=
  ∀ before t after, tokenize markup = before ++ t :: after → t.kind = .text →
    ¬ t.value.toList.all Text.isBlank → ∃ name c g m,
      (∀ n, Selects markup.toList t.span.start n ↔ n = name) ∧ Color.ofName? name = some c ∧
      h.row.child? (before.countP Token.isShown) = some g ∧ g.children = [.mesh m] ∧
      m.materials.front = c ∧ m.materials.side = c.sideShade

/-- A heading that is set from the leaves of some markup is colored. -/
theorem colored_ofLeaves {s : Store} (paired : s.Paired) (o : Options) (loader : Loader)
    (markup : String) : Colored markup (ofLeaves o loader (leavesOf markup) s).1 := by
  intro before t after split kind visible
  have ink : Text.core t.value.toList ≠ [] := fun hcore =>
    visible (List.all_eq_true.2 (Text.core_eq_nil_iff.1 hcore))
  have hselects : Selects markup.toList t.span.start (finalPen before).color :=
    selects_finalPen split (by rw [kind]; exact Kind.noConfusion)
  obtain ⟨c, hc⟩ := Option.isSome_iff_exists.1 hselects.known
  have hleaf : (leavesOf markup)[before.countP Token.isShown]? =
      some (.text t.value (finalPen before).color (finalPen before).style) := by
    rw [getElem?_leavesOf split, Reader.walk, kind]
    rfl
  obtain ⟨g, m, hg, hchildren, hmaterials⟩ :=
    (Draft.painted_ofLeaves o (leavesOf markup) paired).text _ _ _ _ hleaf ink
  have hcolor : (Draft.color (finalPen before).color).1 = c := by
    rw [Draft.color, hc]
  rw [hcolor] at hmaterials
  refine ⟨_, c, g, m, fun n => ⟨fun h => h.eq hselects, ?_⟩, hc, (Draft.child?_row _ _).trans hg,
    hchildren, ?_, ?_⟩
  · rintro rfl
    exact hselects
  · rw [hmaterials]
    rfl
  · rw [hmaterials]
    rfl

/-- A text of a known color is not reported. -/
theorem unknownIn_eq_none {leaf : Leaf} (known : Color.Known leaf.color) :
    unknownIn leaf = none := by
  cases leaf with
  | text value name style =>
    rw [unknownIn, show (Color.ofName? name).isSome = true from known, Bool.or_true]
    rfl
  | emote id name style => rfl

/-- **Colors arrive.** Every leaf of some markup names a color of the palette. So no pass over
the markup reports an unknown color, whatever the store, and neither does a heading that is set
from its leaves.

The mesh of each of its texts that is not blank has in front the color that is selected by the
nearest known escape before the text, white if there is none, and on its sides the shade of that
color. This is so for a pass, and for a heading that is set over any store a program can reach,
whatever materials that has. -/
theorem markup_colored (o : Options) (loader : Loader) (markup : String) :
    (∀ leaf ∈ leavesOf markup, ∃ c, Color.ofName? leaf.color = some c) ∧
    (∀ s name, .colorUnknown name ∉ (compile o loader markup s).2.1 ∧
      .colorUnknown name ∉ (ofLeaves o loader (leavesOf markup) s).2.1) ∧
    (∀ s, Colored markup (compile o loader markup s).1) ∧
    ∀ acts w, Run .start acts w →
      Colored markup (ofLeaves o loader (leavesOf markup) w.store).1 := by
  have known := known_leavesOf markup
  have silent : (leavesOf markup).filterMap unknownIn = [] :=
    List.filterMap_eq_nil_iff.2 fun leaf hleaf => unknownIn_eq_none (known leaf hleaf)
  refine ⟨fun leaf hleaf => Option.isSome_iff_exists.1 (known leaf hleaf), fun s name => ⟨?_, ?_⟩,
    fun s => ?_, fun acts w run => ?_⟩
  · rw [colorUnknown_mem_iff, unknowns_compile, silent]
    exact List.not_mem_nil
  · rw [colorUnknown_mem_iff, unknowns_ofLeaves, silent]
    exact List.not_mem_nil
  · exact colored_ofLeaves (paired_clear s) o loader markup
  · exact colored_ofLeaves (run.paired paired_start) o loader markup

end Heading

end Marquee
