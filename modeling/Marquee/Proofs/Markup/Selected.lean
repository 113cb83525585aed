import Marquee.Proofs.Markup.Barrier
import Marquee.Proofs.Markup.Markers

/-!
# The Color in Force

The color in force at a place is selected by the nearest known escape that begins before it,
and is the base color where there is none. This speaks of the characters of a source alone.
The pen comes to the same by reading tokens: a token of a known escape stands wherever one
begins, as nothing that begins earlier reaches over the start of an escape, and no other token
changes the color. Styles, emotes and escapes that are not known are passed by.

## Main statements

* `Selects.eq` — no more than one color is selected at a place;
* `Selects.pass` — what one piece of a source does to the color;
* `selects_finalPen` — the pen has the color that is selected where it stands.
-/

namespace Marquee.Markup

variable {s : List Char} {i j : Nat} {c d : String}

/-- **The color name in force** at an offset: that of the nearest known escape before it, or the
base color if no known escape begins before it. -/
inductive Selects (s : List Char) (i : Nat) : String → Prop
  | base (none : ∀ j < i, ¬ OpensColor (s.drop j)) : Selects s i Escape.baseColor
  | nearest {j : Nat} {e : Escape} (known : e ∈ Escape.table)
      (here : e.sequence.toList <+: s.drop j) (before : j + e.sequence.toList.length ≤ i)
      (last : ∀ k, j < k → k < i → ¬ OpensColor (s.drop k)) : Selects s i e.color

/-- Escapes that begin at one place are the same. -/
theorem color_eq_of_prefix {e f : Escape} {r : List Char} (he : e ∈ Escape.table)
    (hf : f ∈ Escape.table) (here : e.sequence.toList <+: r) (there : f.sequence.toList <+: r) :
    e.color = f.color := by
  have hhead := (Piece.color he here).head_eq.1.symm.trans (Piece.color hf there).head_eq.1
  exact Kind.color.inj (congrArg Prod.fst hhead)

/-- A known escape has characters. -/
theorem Escape.length_pos {e : Escape} (known : e ∈ Escape.table) :
    0 < e.sequence.toList.length := by
  obtain ⟨b, hb, -⟩ := Escape.exists_body known
  rw [hb, List.length_append]
  exact Nat.succ_pos _

/-- **Only one color** is selected at a place. -/
theorem Selects.eq (h : Selects s i c) (h' : Selects s i d) : c = d := by
  cases h with
  | base none =>
    cases h' with
    | base => rfl
    | @nearest j e known here before last =>
      have hpos := Escape.length_pos known
      exact absurd ⟨e, known, here⟩ (none j (by omega))
  | @nearest j e known here before last =>
    have hpos := Escape.length_pos known
    cases h' with
    | base none => exact absurd ⟨e, known, here⟩ (none j (by omega))
    | @nearest k f known' here' before' last' =>
      have hpos' := Escape.length_pos known'
      rcases Nat.lt_trichotomy j k with hlt | rfl | hgt
      · exact absurd ⟨f, known', here'⟩ (last k hlt (by omega))
      · exact color_eq_of_prefix known known' here here'
      · exact absurd ⟨e, known, here⟩ (last' j hgt (by omega))

/-- Where no known escape begins, the color stays. -/
theorem Selects.stay (h : Selects s i c) (hij : i ≤ j)
    (quiet : ∀ k, i ≤ k → k < j → ¬ OpensColor (s.drop k)) : Selects s j c := by
  cases h with
  | base none =>
    refine .base fun k hk => ?_
    rcases Nat.lt_or_ge k i with hlt | hge
    · exact none k hlt
    · exact quiet k hge hk
  | nearest known here before last =>
    refine .nearest known here (before.trans hij) fun k hjk hk => ?_
    rcases Nat.lt_or_ge k i with hlt | hge
    · exact last k hjk hlt
    · exact quiet k hge hk

/-! ### Pieces -/

section Piece

variable {r v : List Char} {k : Kind}

/-- Where a known escape begins there is an ESC, so it does not begin behind the first character
of something that has no other. -/
theorem not_opensColor_of_single (here : v <+: r) (single : '\x1b' ∉ v.tail) {n : Nat}
    (hpos : 0 < n) (hn : n < v.length) : ¬ OpensColor (r.drop n) := by
  intro opens
  obtain ⟨t, rfl⟩ := here
  obtain ⟨u, hu⟩ := opens.intro
  rw [List.drop_append_of_le_length hn.le] at hu
  have htail : v.drop n <:+ v.tail := by
    rw [← List.drop_one]
    exact List.drop_suffix_drop_left v hpos
  refine single (htail.subset ?_)
  rw [List.drop_eq_getElem_cons hn] at hu ⊢
  rw [← (List.cons.inj hu).1]
  exact List.mem_cons_self

/-- **No known escape begins inside a piece.** -/
theorem Piece.not_opensColor (h : Piece r k v) {n : Nat} (hpos : 0 < n) (hn : n < v.length) :
    ¬ OpensColor (r.drop n) := by
  cases h with
  | color known here => exact not_opensColor_of_single here (Escape.not_mem_tail known) hpos hn
  | emote noColor digits here =>
    exact not_opensColor_of_single here (not_mem_tail_emoteText digits) hpos hn
  | style noColor noEmote here marker =>
    have hstars : List.replicate (markerLength r) '*' <+: r := by
      rw [← take_markerLength]
      exact List.take_prefix _ _
    refine not_opensColor_of_single hstars (fun hmem => ?_) hpos hn
    exact absurd (List.eq_of_mem_replicate (List.mem_of_mem_tail hmem)) (by decide)
  | text noColor noEmote noStar plain longest =>
    exact fun opens => plain.unmarked n hpos hn opens.opensMarker

/-- The color name after a token of some kind. -/
def Kind.dip (c : String) : Kind → String
  | .color name => name
  | _ => c

/-- **What a piece does** to the color in force. -/
theorem Selects.pass (h : Selects s i c) (piece : Piece (s.drop i) k v) :
    Selects s (i + v.length) (k.dip c) := by
  have inside : ∀ n, i < n → n < i + v.length → ¬ OpensColor (s.drop n) := by
    intro n hlt hn
    have hquiet := piece.not_opensColor (n := n - i) (by omega) (by omega)
    rwa [List.drop_drop, Nat.add_sub_of_le hlt.le] at hquiet
  have passed (noColor : ¬ OpensColor (s.drop i)) : Selects s (i + v.length) c := by
    refine h.stay (Nat.le_add_right _ _) fun n hle hn => ?_
    rcases hle.eq_or_lt with rfl | hlt
    · exact noColor
    · exact inside n hlt hn
  cases piece with
  | color known here => exact .nearest known here (Nat.le_refl _) inside
  | emote noColor => exact passed noColor
  | style noColor => exact passed noColor
  | text noColor => exact passed noColor

end Piece

/-! ### Reading -/

section Reading

variable {before after : List Token} {t : Token} {p : Pen}

/-- Reading one more token dips the pen as its kind says. -/
theorem Reader.walk_cons_color (u : Token) (hu : u.kind ≠ .eof) (ts : List Token) (p : Pen) :
    ∃ q : Pen, q.color = u.kind.dip p.color ∧ (walk p (u :: ts)).2 = (walk q ts).2 := by
  rw [walk]
  split
  · next hkind => exact ⟨p, by rw [hkind]; rfl, rfl⟩
  · next hkind => exact ⟨p, by rw [hkind]; rfl, rfl⟩
  · next name hkind => exact ⟨p.dip name, by rw [hkind]; rfl, rfl⟩
  · next style hkind => exact ⟨p.toggle style, by rw [hkind, Pen.toggle_color]; rfl, rfl⟩
  · next hkind => exact absurd hkind hu

/-- **Reading some tokens** keeps the pen at the color in force. Induction on the tokens, each of
which starts where the one before it stops. -/
theorem Selects.walk (h : Selects s i p.color) (contiguous : Contiguous i (before ++ t :: after) j)
    (pieces : ∀ u ∈ before, Piece (s.drop u.span.start) u.kind u.value.toList ∧
      u.span.stop = u.span.start + u.value.toList.length) :
    Selects s t.span.start (Reader.walk p before).2.1.color := by
  induction before generalizing i p with
  | nil =>
    obtain ⟨rfl, -⟩ := contiguous
    exact h
  | cons u before ih =>
    obtain ⟨rfl, -, hrest⟩ := contiguous
    obtain ⟨⟨hpiece, hstop⟩, hpieces⟩ := List.forall_mem_cons.1 pieces
    obtain ⟨q, hq, hwalk⟩ := Reader.walk_cons_color u hpiece.kind_ne_eof before p
    have hpass := h.pass hpiece
    rw [← hstop, ← hq] at hpass
    rw [hwalk]
    exact ih hpass hrest hpieces

/-- A token that is no end lies among those of the pieces. -/
theorem placed_of_tokenize {source : String} (split : tokenize source = before ++ t :: after)
    (going : t.kind ≠ .eof) :
    ∃ rest, placed .start (Lexer.split source.toList) = before ++ t :: rest := by
  rw [tokenize_eq] at split
  rcases List.eq_nil_or_concat after with rfl | ⟨rest, last, rfl⟩
  · obtain ⟨-, hlast⟩ := List.append_inj' split rfl
    obtain rfl := List.singleton_inj.1 hlast
    exact absurd rfl going
  · rw [List.concat_eq_append, ← List.cons_append, ← List.append_assoc] at split
    exact ⟨rest, (List.append_inj' split rfl).1⟩

/-- The tokens of the pieces lie side by side. -/
theorem exists_contiguous (source : String) :
    ∃ j, Contiguous 0 (placed .start (Lexer.split source.toList)) j := by
  refine ⟨_, contiguous_placed (fun q hq => ?_) .start⟩
  obtain ⟨front, back, hps⟩ := List.append_of_mem hq
  have hseg := segmentation_iff.2 (Eq.refl (Lexer.split source.toList))
  rw [hps] at hseg
  exact hseg.piece.ne_nil

/-- **The pen** has the color that is selected where it stands. -/
theorem selects_finalPen {source : String} (split : tokenize source = before ++ t :: after)
    (going : t.kind ≠ .eof) :
    Selects source.toList t.span.start (finalPen before).color := by
  obtain ⟨rest, hplaced⟩ := placed_of_tokenize split going
  obtain ⟨j, contiguous⟩ := exists_contiguous source
  rw [hplaced] at contiguous
  have start : Selects source.toList 0 Pen.start.color := .base fun j hj => absurd hj (by omega)
  refine start.walk contiguous fun u hu => piece_of_mem ?_
  rw [hplaced]
  exact List.mem_append_left _ hu

end Reading

end Marquee.Markup
