import Marquee.Proofs.Markup.Tokens

/-!
# Escapes as Barriers

The rules of the lexer look ahead without a bound, the escape rule to the next terminator
and the emote rule to the next colon. They may look past a known escape, but nothing that
begins before it reaches into it: an escape has ESC as its first character and nowhere else,
and no other markup has one at all, so a match that ran over the start of an escape would
have an ESC behind its own first character.

So the characters in front of a known escape are cut as if they stood alone, whatever is
left unfinished there, and those behind it are cut as a source of their own.

## Main statements

* `prefix_append_iff` — what begins before an escape ends before it;
* `Piece.append` — no piece changes when an escape follows;
* `Segmentation.append`, `split_escape` — the splitting falls apart at an escape;
* `escape_is_barrier` — so do the tokens, and those behind only lie further on.
-/

namespace Marquee.Markup

/-! ### What may begin in front of an escape -/

/-- A known escape has ESC as its first character only. -/
theorem Escape.not_mem_tail {e : Escape} (known : e ∈ Escape.table) :
    '\x1b' ∉ e.sequence.toList.tail := by
  have hall : ∀ e ∈ Escape.table, '\x1b' ∉ e.sequence.toList.tail := by decide
  exact hall e known

/-- An escape does not begin inside an emote. -/
theorem not_mem_tail_emoteText {d : List Char} (digits : IsDigits d) :
    '\x1b' ∉ (emoteText d).tail := by
  intro hmem
  rcases List.mem_append.1 hmem with hd | hcolon
  · exact absurd (digits.2 _ hd) (by decide)
  · exact absurd (List.mem_singleton.1 hcolon) (by decide)

section Behind

variable {r t v p : List Char}

/-- **A barrier.** What begins in some text and has no ESC behind its first character does not run
over an escape that follows the text, as the ESC of that would be one of its characters. -/
theorem prefix_append_iff (opens : Escape.intro <+: t) (hr : r ≠ []) (single : '\x1b' ∉ p.tail) :
    p <+: r ++ t ↔ p <+: r := by
  refine ⟨fun hp => ?_, fun hp => hp.trans (List.prefix_append r t)⟩
  rcases List.prefix_or_prefix_of_prefix hp (List.prefix_append r t) with here | ⟨q, rfl⟩
  · exact here
  · obtain ⟨x, r, rfl⟩ := List.exists_cons_of_ne_nil hr
    obtain ⟨t, rfl⟩ := opens
    have hq : q <+: Escape.intro ++ t := (List.prefix_append_right_inj _).1 hp
    cases q with
    | nil => exact ⟨[], by simp⟩
    | cons c q =>
      obtain rfl : c = '\x1b' := (List.cons_prefix_cons.1 hq).1
      exact absurd (by simp) single

/-- What follows from an escape on does not decide whether a color opens before it. -/
theorem opensColor_append_iff (opens : Escape.intro <+: t) (hr : r ≠ []) :
    OpensColor (r ++ t) ↔ OpensColor r := by
  constructor
  · rintro ⟨e, known, here⟩
    exact ⟨e, known, (prefix_append_iff opens hr (Escape.not_mem_tail known)).1 here⟩
  · rintro ⟨e, known, here⟩
    exact ⟨e, known, here.trans (List.prefix_append r t)⟩

/-- Nor does it decide whether an emote opens before it. -/
theorem opensEmote_append_iff (opens : Escape.intro <+: t) (hr : r ≠ []) :
    OpensEmote (r ++ t) ↔ OpensEmote r := by
  constructor
  · rintro ⟨d, digits, here⟩
    exact ⟨d, digits, (prefix_append_iff opens hr (not_mem_tail_emoteText digits)).1 here⟩
  · rintro ⟨d, digits, here⟩
    exact ⟨d, digits, here.trans (List.prefix_append r t)⟩

/-- So it decides of no markup at all. -/
theorem opensMarker_append_iff (opens : Escape.intro <+: t) (hr : r ≠ []) :
    OpensMarker (r ++ t) ↔ OpensMarker r := by
  simp only [OpensMarker]
  rw [prefix_append_iff opens hr (by simp), prefix_append_iff opens hr (by simp),
    prefix_append_iff opens hr (by simp)]

/-- The stars in front of an escape are not joined by any behind it. -/
theorem markerLength_append (opens : Escape.intro <+: t) :
    markerLength (r ++ t) = markerLength r := by
  obtain ⟨t, rfl⟩ := opens
  have hnone : (Escape.intro ++ t).takeWhile (· == '*') = [] := rfl
  rw [markerLength, markerLength, List.takeWhile_append, hnone, List.append_nil]
  split
  · next hall =>
    rw [hall]
  · rfl

/-- Plain text in front of an escape ends before it. -/
theorem isPlain_append_iff (opens : Escape.intro <+: t) (hr : r ≠ []) :
    IsPlain (r ++ t) v ↔ IsPlain r v := by
  have inside : ∀ i, i < r.length →
      (OpensMarker ((r ++ t).drop i) ↔ OpensMarker (r.drop i)) := by
    intro i hi
    rw [List.drop_append_of_le_length hi.le]
    exact opensMarker_append_iff opens (by simpa using hi)
  constructor
  · intro plain
    have hle : v.length ≤ r.length := by
      by_contra hlt
      refine plain.unmarked r.length (List.length_pos_iff.2 hr) (Nat.not_le.1 hlt) ?_
      rw [List.drop_left]
      exact .inr (.inr opens)
    have here : v <+: r := List.prefix_of_prefix_length_le plain.here (List.prefix_append r t) hle
    refine ⟨plain.ne_nil, here, fun i hi hlt => ?_⟩
    rw [← inside i (by omega)]
    exact plain.unmarked i hi hlt
  · intro plain
    have hle : v.length ≤ r.length := plain.here.length_le
    refine ⟨plain.ne_nil, plain.here.trans (List.prefix_append r t), fun i hi hlt => ?_⟩
    rw [inside i (by omega)]
    exact plain.unmarked i hi hlt

/-- **No piece changes** when an escape follows the text that it begins. -/
theorem Piece.append {k : Kind} (piece : Piece r k v) (opens : Escape.intro <+: t) :
    Piece (r ++ t) k v := by
  have hr : r ≠ [] := fun hnil => piece.ne_nil (List.prefix_nil.1 (hnil ▸ piece.head_eq.2))
  have hcolor := opensColor_append_iff opens hr
  have hemote := opensEmote_append_iff opens hr
  have hstar : ['*'] <+: r ++ t ↔ ['*'] <+: r := prefix_append_iff opens hr (by simp)
  cases piece with
  | color known here => exact .color known (here.trans (List.prefix_append r t))
  | emote noColor digits here =>
    exact .emote (mt hcolor.1 noColor) digits (here.trans (List.prefix_append r t))
  | style noColor noEmote here marker =>
    rw [← markerLength_append opens] at marker ⊢
    exact .style (mt hcolor.1 noColor) (mt hemote.1 noEmote) (hstar.2 here) marker
  | text noColor noEmote noStar plain longest =>
    refine .text (mt hcolor.1 noColor) (mt hemote.1 noEmote) (mt hstar.1 noStar)
      ((isPlain_append_iff opens hr).2 plain) fun w hw => ?_
    exact longest w ((isPlain_append_iff opens hr).1 hw)

end Behind

/-! ### Splitting at an escape -/

/-- A source in front of an escape is cut as it is alone. Induction on its pieces: each of
them still stands where it stood. -/
theorem Segmentation.append {a t : List Char} {ps qs : List (Kind × List Char)}
    (first : Segmentation a ps) (opens : Escape.intro <+: t) (second : Segmentation t qs) :
    Segmentation (a ++ t) (ps ++ qs) := by
  induction first with
  | nil => exact second
  | @cons k v rest more piece _ ih =>
    have hpiece : Piece (v ++ (rest ++ t)) k v := by
      rw [← List.append_assoc]
      exact piece.append opens
    rw [List.append_assoc]
    exact .cons hpiece ih

/-- **The splitting falls apart** at a known escape. -/
theorem split_escape {e : Escape} (known : e ∈ Escape.table) (a b : List Char) :
    Lexer.split (a ++ (e.sequence.toList ++ b)) =
      Lexer.split a ++ (.color e.color, e.sequence.toList) :: Lexer.split b := by
  have opens : Escape.intro <+: e.sequence.toList ++ b :=
    OpensColor.intro ⟨e, known, List.prefix_append _ _⟩
  have first : Segmentation a (Lexer.split a) := segmentation_iff.2 rfl
  have second : Segmentation b (Lexer.split b) := segmentation_iff.2 rfl
  have behind := Segmentation.cons (.color known (List.prefix_append e.sequence.toList b)) second
  exact (segmentation_iff.1 (first.append opens behind)).symm

/-! ### Tokens at an escape -/

/-- Pieces behind others are placed from where these stop. -/
theorem placed_append (p : Position) (ps qs : List (Kind × List Char)) :
    placed p (ps ++ qs) = placed p ps ++ placed (p.advance (joined ps)) qs := by
  induction ps generalizing p with
  | nil => rfl
  | cons q ps ih =>
    obtain ⟨k, v⟩ := q
    rw [List.cons_append, placed, ih, placed, joined_cons, Position.advance_append,
      List.cons_append]

/-- One token is another that lies so many characters further on. -/
structure Token.Shifted (n : Nat) (t u : Token) : Prop where
  kind : u.kind = t.kind
  value : u.value = t.value
  start : u.span.start = t.span.start + n
  stop : u.span.stop = t.span.stop + n

/-- The tokens of a source and its end, from two places on. -/
theorem shifted_placed {p q : Position} {n : Nat} (h : q.offset = p.offset + n)
    (ps : List (Kind × List Char)) :
    List.Forall₂ (Token.Shifted n) (placed p ps ++ [ending (p.advance (joined ps))])
      (placed q ps ++ [ending (q.advance (joined ps))]) := by
  induction ps generalizing p q with
  | nil => exact .cons ⟨rfl, rfl, h, h⟩ .nil
  | cons x ps ih =>
    obtain ⟨k, v⟩ := x
    have hstop : (q.advance v).offset = (p.advance v).offset + n := by
      rw [Position.advance_offset, Position.advance_offset]
      omega
    rw [joined_cons, Position.advance_append, Position.advance_append]
    exact .cons ⟨rfl, rfl, h, hstop⟩ (ih hstop)

/-- **A known escape is a barrier.** Whatever stands in front of it and behind it, the tokens
of the whole are those of the part in front without their end, the color at the offset where
that part ends, and those of the part behind with their end, of the same kinds and values and
further on by what is in front of them. -/
theorem escape_is_barrier {e : Escape} (known : e ∈ Escape.table) (a b : String) :
    ∃ c behind, tokenize (a ++ e.sequence ++ b) = (tokenize a).dropLast ++ c :: behind ∧
      c.kind = .color e.color ∧ c.value = e.sequence ∧
      c.span.start = a.length ∧ c.span.stop = a.length + e.sequence.length ∧
      List.Forall₂ (Token.Shifted (a.length + e.sequence.length)) (tokenize b) behind := by
  set p := Position.start.advance a.toList with hp
  set q := p.advance e.sequence.toList with hq
  have hpo : p.offset = a.length := by
    rw [hp, Position.advance_offset, String.length_toList]
    exact Nat.zero_add _
  have hqo : q.offset = a.length + e.sequence.length := by
    rw [hq, Position.advance_offset, hpo, String.length_toList]
  have hsource : (a ++ e.sequence ++ b).toList = a.toList ++ (e.sequence.toList ++ b.toList) := by
    rw [String.toList_append, String.toList_append, List.append_assoc]
  have hjoined : ∀ s : List Char, joined (Lexer.split s) = s := fun s =>
    (segmentation_iff.2 rfl).joined_eq
  refine ⟨⟨.color e.color, e.sequence, .between p q⟩,
    placed q (Lexer.split b.toList) ++ [ending (q.advance b.toList)], ?_, rfl, rfl, hpo, hqo, ?_⟩
  · rw [tokenize_eq, tokenize_eq, List.dropLast_concat, hsource, split_escape known, placed_append,
      hjoined, placed, String.ofList_toList, Position.advance_append, Position.advance_append,
      List.append_assoc]
    rfl
  · have hshift : q.offset = Position.start.offset + (a.length + e.sequence.length) := by
      rw [hqo]
      exact (Nat.zero_add _).symm
    have shifted := shifted_placed hshift (Lexer.split b.toList)
    rwa [hjoined, ← tokenize_eq] at shifted

/-- An open marker, an open colon, an escape that is not terminated and a last ESC stand in
front, and what could have finished each of them behind. -/
theorem unfinished_markup_stays_cut :
    ⟨"\x1b[31m", "RED"⟩ ∈ Escape.table ∧
      ∃ c behind, tokenize ("**:1\x1b[3\x1b" ++ "\x1b[31m" ++ "[32m2:**") =
          (tokenize "**:1\x1b[3\x1b").dropLast ++ c :: behind ∧
        (tokenize "**:1\x1b[3\x1b").dropLast.map (·.value) = ["**", ":1", "\x1b[3\x1b"] ∧
        c.kind = .color "RED" ∧ c.span.start = 8 ∧
        List.Forall₂ (Token.Shifted 13) (tokenize "[32m2:**") behind := by
  have known : ⟨"\x1b[31m", "RED"⟩ ∈ Escape.table := by decide
  obtain ⟨c, behind, htokens, hkind, -, hstart, -, hbehind⟩ :=
    escape_is_barrier known "**:1\x1b[3\x1b" "[32m2:**"
  have hcut : (tokenize "**:1\x1b[3\x1b").dropLast.map (·.value) = ["**", ":1", "\x1b[3\x1b"] := by
    decide +kernel
  exact ⟨known, c, behind, htokens, hcut, hkind, hstart, hbehind⟩

end Marquee.Markup
