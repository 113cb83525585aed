import Marquee.Proofs.Heading.Fresh
import Marquee.Proofs.Markup.Markers
import Mathlib.Data.List.DropRight

/-!
# From Markup to a Row

A pass makes one group of each token that shows something, a text or an emote, in the order
of the tokens. Reading turns such a token into a leaf with the style in force where it
stands, and a row has one group to each leaf. As the store is cleared first, each is the
group of a row laid out anew.

A text that is not blank is shown without its margins. Its two margins and what is between
them are found by three scans of their own, but put together they are the text again, the
margins are blank and what is between them neither starts nor ends with a blank.

## Main statements

* `Text.exists_head?_core`, `Text.exists_getLast?_core` — a core has no margins;
* `Reader.walk_append`, `Reader.length_walk` — what reading makes of some tokens;
* `getElem?_leavesOf` — the leaf of a token;
* `depicts_text`, `depicts_emote` — the group of a leaf is as its token wants it;
* `compile_depicts` — the row of some markup has a group for each token that shows something.
-/

namespace Marquee

open Fetch Markup Scene Space

/-! ### The core of a text -/

namespace Text

variable {s : List Char}

/-- The leading margin of a text is blank. -/
theorem isBlank_of_mem_leading {c : Char} (hc : c ∈ leading s) : isBlank c :=
  List.mem_takeWhile_imp hc

/-- The trailing margin of a text is blank. -/
theorem isBlank_of_mem_trailing {c : Char} (hc : c ∈ trailing s) : isBlank c :=
  List.mem_takeWhile_imp (List.mem_reverse.1 hc)

/-- A core starts with a character that is not blank, since it is the first part of what is left
behind the leading margin. -/
theorem exists_head?_core (ink : core s ≠ []) : ∃ c ∈ (core s).head?, ¬ isBlank c := by
  obtain ⟨c, cs, hcore⟩ := List.exists_cons_of_ne_nil ink
  obtain ⟨margin, hmargin⟩ : core s <+: s.dropWhile isBlank := List.rdropWhile_prefix isBlank _
  have hfirst := List.head?_dropWhile_not isBlank s
  rw [← hmargin, hcore, List.cons_append, List.head?_cons] at hfirst
  refine ⟨c, ?_, Bool.eq_false_iff.1 hfirst⟩
  rw [hcore, List.head?_cons]
  rfl

/-- A core ends with a character that is not blank. -/
theorem exists_getLast?_core (ink : core s ≠ []) : ∃ c ∈ (core s).getLast?, ¬ isBlank c :=
  ⟨_, List.getLast?_eq_getLast_of_ne_nil ink, List.rdropWhile_last_not isBlank _ ink⟩

end Text

/-! ### What reading makes of tokens -/

namespace Markup

/-- Whether a token shows something. -/
def Token.isShown (t : Token) : Bool :=
  match t.kind with
  | .text | .emote _ => true
  | .color _ | .style _ | .eof => false

namespace Reader

/-- Tokens in front of which no end stands are read in turn. -/
theorem walk_append {before : List Token} (going : ∀ t ∈ before, t.kind ≠ .eof) (p : Pen)
    (ts : List Token) :
    (walk p (before ++ ts)).1 = (walk p before).1 ++ (walk (walk p before).2.1 ts).1 := by
  induction before generalizing p with
  | nil => rfl
  | cons t before ih =>
    obtain ⟨hfirst, hrest⟩ := List.forall_mem_cons.1 going
    have ih := ih hrest
    rw [List.cons_append, walk, walk]
    split
    · exact congrArg (List.cons _) (ih p)
    · exact congrArg (List.cons _) (ih p)
    · exact ih (p.dip _)
    · exact ih (p.toggle _)
    · next hkind => exact absurd hkind hfirst

/-- There is one leaf to each token that shows something. -/
theorem length_walk {ts : List Token} (orderly : Orderly ts) (p : Pen) :
    (walk p ts).1.length = ts.countP Token.isShown := by
  induction ts generalizing p with
  | nil => rfl
  | cons t ts ih =>
    have ih := ih orderly.tail
    rw [walk, List.countP_cons, Token.isShown]
    cases hkind : t.kind with
    | text => exact congrArg (· + 1) (ih p)
    | emote id => exact congrArg (· + 1) (ih p)
    | color name => exact ih (p.dip name)
    | style s => exact ih (p.toggle s)
    | eof =>
      rw [orderly.eq_nil_of_eof hkind]
      rfl

end Reader

end Markup

namespace Heading

/-- What a token that shows something is in a row, with the style in force where it stands:
a group behind what the row reaches without it, and how far the row reaches with it. The blanks
on either side of a run are counted one by one, and leave no less than the least gap. -/
inductive Depicts (o : Options) (style : Style) (x y : Float32) (t : Token) (g : Group) : Prop
  | space (kind : t.kind = .text) (blank : ∀ c ∈ t.value.toList, Text.isBlank c)
      (name : g.name = "space") (children : g.children = [])
      (place : g.transform = .moved ⟨x, 0, 0⟩)
      (reach : y = x + Float32.ofNat t.value.toList.length * o.spacing)
  | run (kind : t.kind = .text) (lead core trail : List Char) (m : Mesh)
      (value : t.value.toList = lead ++ core ++ trail) (lead_blank : ∀ c ∈ lead, Text.isBlank c)
      (trail_blank : ∀ c ∈ trail, Text.isBlank c) (first : ∃ c ∈ core.head?, ¬ Text.isBlank c)
      (last : ∃ c ∈ core.getLast?, ¬ Text.isBlank c) (name : g.name = "text:" ++ .ofList core)
      (children : g.children = [.mesh m]) (text : m.geometry.text = .ofList core)
      (styled : m.geometry.style = style)
      (left right : Float32)
      (left_gap : left = greater (Float32.ofNat lead.length * o.spacing) o.minGap)
      (right_gap : right = greater (Float32.ofNat trail.length * o.spacing) o.minGap)
      (place : g.transform = .moved ⟨x + left, 0, 0⟩)
      (reach : y = x + (left + m.geometry.width + right))
  | emote (id : String) (sprites : List Sprite) (kind : t.kind = .emote id)
      (name : g.name = "emote:" ++ id) (nonempty : sprites ≠ [])
      (children : g.children = sprites.map .sprite)
      (place : g.transform = .moved ⟨x + o.minGap, 0, 0⟩)
      (reach : y = x + (o.minGap + o.emoteSize + o.minGap))

/-- A stack shows sprites and nothing else, with a picture or without one. -/
theorem Stack.exists_sprites (stack : Stack) (picture : Option Texture) :
    ∃ sprites : List Sprite, sprites ≠ [] ∧ stack.show picture = sprites.map .sprite := by
  cases picture with
  | none => exact ⟨[_], List.cons_ne_nil _ _, rfl⟩
  | some t =>
    refine ⟨_, fun hnil => ?_, (List.map_map (g := Node.sprite)).symm⟩
    have hlength := congrArg List.length hnil
    rw [List.length_map, List.length_range] at hlength
    exact absurd hlength (Nat.ne_of_gt stack.count_pos)

section Depicts

variable {o : Options} {t : Token} {color : String} {style : Style}

/-- The group of a text is as its token wants it. -/
theorem depicts_text (kind : t.kind = .text) (picture? : String → Option Texture) (x : Float32) :
    Depicts o style x (advance o x (.text t.value color style)) t
      (groupAt o picture? x (.text t.value color style)) := by
  by_cases hcore : Text.core t.value.toList = []
  · have hempty : (Text.core t.value.toList).isEmpty := List.isEmpty_iff.2 hcore
    rw [groupAt, advance, if_pos hempty, if_pos hempty]
    exact .space kind (Text.core_eq_nil_iff.1 hcore) rfl rfl rfl rfl
  · have hempty : ¬ (Text.core t.value.toList).isEmpty := fun h => hcore (List.isEmpty_iff.1 h)
    rw [groupAt, advance, if_neg hempty, if_neg hempty]
    exact .run kind _ _ _ _ (Text.leading_append_core_append_trailing hcore).symm
      (fun c => Text.isBlank_of_mem_leading) (fun c => Text.isBlank_of_mem_trailing)
      (Text.exists_head?_core hcore) (Text.exists_getLast?_core hcore) rfl rfl rfl rfl _ _ rfl rfl
      rfl rfl

/-- The group of an emote is as its token wants it. -/
theorem depicts_emote {id : String} (kind : t.kind = .emote id)
    (picture? : String → Option Texture) (x : Float32) :
    Depicts o style x (advance o x (.emote id color style)) t
      (groupAt o picture? x (.emote id color style)) := by
  obtain ⟨sprites, hsome, hshow⟩ :=
    (Stack.ofOptions o).exists_sprites (picture? (o.emotes.urlFor id))
  exact .emote id sprites kind rfl hsome hshow rfl rfl

end Depicts

/-! ### The row of some markup -/

section Compile

variable {markup : String} {before after : List Token} {t : Token}

/-- The leaf of a token has as many leaves before it as tokens before it show something. -/
theorem getElem?_leavesOf (split : tokenize markup = before ++ t :: after) :
    (leavesOf markup)[before.countP Token.isShown]? =
      (Reader.walk (finalPen before) (t :: after)).1.head? := by
  have orderly := split ▸ orderly_tokenize markup
  have going : ∀ u ∈ before, u.kind ≠ .eof := by
    intro u hu
    refine orderly.ended u ?_
    rw [List.dropLast_append_cons]
    exact List.mem_append_left _ hu
  have hlength : (Reader.walk .start before).1.length = before.countP Token.isShown :=
    Reader.length_walk (orderly.initial (List.prefix_append _ _)) .start
  have hleaves : leavesOf markup = (Reader.walk .start before).1 ++
      (Reader.walk (finalPen before) (t :: after)).1 := by
    rw [leavesOf, split]
    exact Reader.walk_append going .start (t :: after)
  rw [hleaves, ← hlength, List.getElem?_append_right (Nat.le_refl _), Nat.sub_self,
    List.head?_eq_getElem?]

end Compile

/-- How far a row of some leaves reaches with so many of them. -/
def reachOf (o : Options) (leaves : List Leaf) (n : Nat) : Float32 :=
  (leaves.take n).foldl (advance o) 0

/-- One more leaf takes the row as far as the leaf advances. -/
theorem reachOf_succ {o : Options} {leaves : List Leaf} {n : Nat} {leaf : Leaf}
    (hleaf : leaves[n]? = some leaf) :
    reachOf o leaves (n + 1) = advance o (reachOf o leaves n) leaf := by
  rw [reachOf, List.take_add_one, hleaf, List.foldl_append]
  rfl

/-- **Nothing is dropped, doubled or moved.** The row of some markup, whatever the store
before it, has as many children as tokens of the markup show something. The group of such a
token has as many groups in front of it as such tokens come before, and stands where the row
reaches with those. It depicts the token with the style that is in force after the tokens
before it, and with all of them the row reaches to its width. -/
theorem compile_depicts (o : Options) (loader : Loader) (markup : String) (s : Store) :
    let h := (compile o loader markup s).1
    h.row.children.length = (tokenize markup).countP Token.isShown ∧
      ∃ reach : Nat → Float32, reach 0 = 0 ∧ reach h.row.children.length = h.width ∧
        ∀ before t after, tokenize markup = before ++ t :: after → t.isShown →
          let n := before.countP Token.isShown
          ∃ g, h.row.child? n = some g ∧
            Depicts o (finalPen before).style (reach n) (reach (n + 1)) t g := by
  intro h
  have made := Store.made_clear o.fonts (· = o.geometry) s
  have apart := Extrusion.apart_eq o.geometry
  have hlength : h.row.children.length = (leavesOf markup).length := length_children rfl
  have hwidth : h.width = (leavesOf markup).foldl (advance o) 0 :=
    (anew_ofLeaves made apart rfl loader (leavesOf markup)).1
  refine ⟨?_, reachOf o (leavesOf markup), rfl, ?_, ?_⟩
  · exact hlength.trans (Reader.length_walk (orderly_tokenize markup) .start)
  · rw [hlength, reachOf, List.take_length, hwidth]
  · intro before t after split shown n
    have hchild : h.row.child? n = (leavesOf markup)[n]?.map
        (groupAt o s.clear.2.2.textures.get? (reachOf o (leavesOf markup) n)) :=
      child?_anew made apart rfl loader (leavesOf markup) n
    cases kind : t.kind with
    | text =>
      have hleaf : (leavesOf markup)[n]? =
          some (.text t.value (finalPen before).color (finalPen before).style) := by
        rw [getElem?_leavesOf split, Reader.walk, kind]
        rfl
      rw [hchild, reachOf_succ hleaf, hleaf]
      exact ⟨_, rfl, depicts_text kind _ _⟩
    | emote id =>
      have hleaf : (leavesOf markup)[n]? =
          some (.emote id (finalPen before).color (finalPen before).style) := by
        rw [getElem?_leavesOf split, Reader.walk, kind]
        rfl
      rw [hchild, reachOf_succ hleaf, hleaf]
      exact ⟨_, rfl, depicts_emote kind _ _⟩
    | color | style | eof =>
      rw [Token.isShown, kind] at shown
      cases shown

end Heading

end Marquee
