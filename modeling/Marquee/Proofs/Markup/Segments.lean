import Marquee.Proofs.Markup.Tokens
import Mathlib.Data.List.Chain

/-!
# Writing Markup

Markup is written from segments: texts, colors, stars and emotes, one behind the other.
Reading it gives the segments back if each is one that can be written and no two neighbors
run into each other: two texts would be one, and so would stars, except that three are never
joined by a fourth. No other neighbors have to be kept apart: a text may end in the first
character of an escape, and digits may stand between emotes.

In the other direction there is nothing to keep to. Whatever the source, what its tokens say
is enough to write it again.

## Main statements

* `Segment.Valid.piece` — what is written is what the grammar has there, whatever follows,
  as long as it ends the segment;
* `WellFormed.segmentation`, `tokens_write` — segments that are written are read again;
* `write_tokens` — tokens that are written give their source;
* `markup_round_trip` — both.
-/

namespace Marquee.Markup

/-- A part of markup to be written. -/
inductive Segment where
  | text (value : String)
  | color (name : String)
  | style (style : Style)
  | emote (id : String)
deriving DecidableEq

namespace Segment

/-- The kind of token that a segment is read as. -/
def kind : Segment → Kind
  | text _ => .text
  | color name => .color name
  | style s => .style s
  | emote id => .emote id

/-- The characters of a segment. There are none for a color without an escape. -/
def written : Segment → String
  | text value => value
  | color name => (Escape.sequence? name).getD ""
  | style s => String.ofList (List.replicate s.markerLength '*')
  | emote id => ":" ++ id ++ ":"

/-- The segment that a token is; the end is none. -/
def ofToken? (t : Token) : Option Segment :=
  match t.kind with
  | .text => some (text t.value)
  | .color name => some (color name)
  | .style s => some (style s)
  | .emote id => some (emote id)
  | .eof => none

/-- A text that is read as one: there is something in it, no star and no colon, and no escape
begins in it. -/
structure IsText (value : String) : Prop where
  ne_empty : value ≠ ""
  star : '*' ∉ value.toList
  colon : ':' ∉ value.toList
  intro : ¬ Escape.intro <:+: value.toList

/-- A segment that can be written. -/
def Valid : Segment → Prop
  | text value => IsText value
  | color name => ∃ e ∈ Escape.table, e.color = name
  | style s => s ≠ .regular
  | emote id => IsDigits id.toList

/-- One segment may stand directly before another: two texts may not, and of stars only
three before others. -/
def MayPrecede : Segment → Segment → Prop
  | text _, text _ => False
  | style s, style _ => s = .boldItalic
  | _, _ => True

/-- The source that some segments make. -/
def write (segments : List Segment) : String := String.join (segments.map written)

/-- A segment as a piece of a source. -/
def piece (s : Segment) : Kind × List Char := (s.kind, s.written.toList)

/-- Segments are written as their pieces, one after the other. -/
theorem toList_write (segments : List Segment) :
    (write segments).toList = joined (segments.map piece) := by
  induction segments with
  | nil => rfl
  | cons s segments ih =>
    rw [write, List.map_cons, String.join_cons, String.toList_append, List.map_cons, piece,
      joined_cons, ← ih, write]

/-- A color is written as the escape that selects it. -/
theorem written_color {e : Escape} (known : e ∈ Escape.table) :
    (color e.color).written = e.sequence := by
  rw [written, Escape.sequence?_eq_some_iff.2 known, Option.getD_some]

/-- An emote is written as its number between its marks. -/
theorem written_emote (id : String) :
    (emote id).written = String.ofList (emoteText id.toList) := by
  rw [← String.toList_inj, String.toList_ofList, written, String.toList_append,
    String.toList_append, emoteText]
  rfl

end Segment

/-- Segments that can be written one behind the other. -/
structure WellFormed (segments : List Segment) : Prop where
  valid : ∀ s ∈ segments, s.Valid
  apart : segments.IsChain Segment.MayPrecede

/-! ### One segment -/

section Begin

variable {r : List Char} {c : Char}

/-- A color opens with an escape character only. -/
theorem not_opensColor_cons (hc : c ≠ '\x1b') : ¬ OpensColor (c :: r) := fun opens =>
  hc (List.cons_prefix_cons.1 opens.intro).1.symm

/-- An emote opens with a colon only. -/
theorem not_opensEmote_cons (hc : c ≠ ':') : ¬ OpensEmote (c :: r) := by
  rintro ⟨d, -, hpre⟩
  exact hc (List.cons_prefix_cons.1 hpre).1.symm

/-- No marker begins with the second character of an escape. -/
theorem OpensMarker.not_bracket (opens : OpensMarker r) : ¬ ['['] <+: r := by
  rintro ⟨t, rfl⟩
  rcases opens with hstar | hcolon | hintro
  · exact absurd (List.cons_prefix_cons.1 hstar).1 (by decide)
  · exact absurd (List.cons_prefix_cons.1 hcolon).1 (by decide)
  · exact absurd (List.cons_prefix_cons.1 hintro).1 (by decide)

/-- As many stars are taken as stand there, if there are no more, or three. -/
theorem markerLength_replicate {n : Nat} (hn : n ≤ 3) (ends : n = 3 ∨ ¬ ['*'] <+: r) :
    markerLength (List.replicate n '*' ++ r) = n := by
  have hall : ∀ a ∈ List.replicate n '*', (a == '*') = true := fun a ha =>
    beq_iff_eq.2 (List.eq_of_mem_replicate ha)
  rw [markerLength, List.takeWhile_append_of_pos hall, List.length_append, List.length_replicate]
  rcases ends with rfl | hstar
  · omega
  · have hnone : ¬ 0 < markerLength r := fun hpos => hstar (markerLength_pos_iff.1 hpos)
    rw [markerLength] at hnone
    omega

end Begin

namespace Segment

/-- What follows a segment ends it: a text ends where a marker begins or the source ends, one
or two stars where no other stands, and anything else by itself. -/
def EndsBefore : Segment → List Char → Prop
  | text _, rest => rest = [] ∨ OpensMarker rest
  | style s, rest => s = .boldItalic ∨ ¬ ['*'] <+: rest
  | _, _ => True

section Piece

variable {s : Segment} {rest : List Char}

/-- No marker begins in a text, not even together with what follows: if the text ends in an ESC, no
bracket comes next. -/
theorem IsText.not_opensMarker {v : String} (isText : IsText v)
    (ends : rest = [] ∨ OpensMarker rest) {i : Nat} (hi : i < v.toList.length) :
    ¬ OpensMarker ((v.toList ++ rest).drop i) := by
  obtain ⟨c, cs, hcs⟩ : ∃ c cs, v.toList.drop i = c :: cs :=
    List.exists_cons_of_ne_nil fun hnil => absurd (List.drop_eq_nil_iff.1 hnil) (Nat.not_le.2 hi)
  have hmem : c ∈ v.toList := List.mem_of_mem_drop (hcs ▸ List.mem_cons_self)
  rw [List.drop_append_of_le_length hi.le, hcs, List.cons_append]
  rintro (hstar | hcolon | hintro)
  · exact isText.star ((List.cons_prefix_cons.1 hstar).1 ▸ hmem)
  · exact isText.colon ((List.cons_prefix_cons.1 hcolon).1 ▸ hmem)
  · obtain ⟨rfl, hbracket⟩ := List.cons_prefix_cons.1 hintro
    cases cs with
    | nil =>
      rcases ends with rfl | opens
      · cases List.prefix_nil.1 hbracket
      · exact opens.not_bracket hbracket
    | cons d cs =>
      obtain ⟨rfl, -⟩ := List.cons_prefix_cons.1 hbracket
      refine isText.intro ((List.IsPrefix.isInfix ?_).trans (List.drop_suffix i _).isInfix)
      rw [hcs]
      exact ⟨cs, rfl⟩

/-- A text without markup is a piece, up to the next markup or the end; a longer piece would run
over the markup that ends it. -/
theorem IsText.piece {v : String} (isText : IsText v) (ends : rest = [] ∨ OpensMarker rest) :
    Piece (v.toList ++ rest) .text v.toList := by
  have hne : v.toList ≠ [] := fun hnil =>
    isText.ne_empty (String.toList_inj.1 (hnil.trans String.toList_empty.symm))
  have hstart : ¬ OpensMarker (v.toList ++ rest) :=
    isText.not_opensMarker ends (List.length_pos_iff.2 hne)
  refine .text (fun opens => hstart opens.opensMarker) (fun opens => hstart opens.opensMarker)
    (fun hstar => hstart (.inl hstar))
    ⟨hne, List.prefix_append _ _, fun i _ hi => isText.not_opensMarker ends hi⟩ fun w hw => ?_
  by_contra hlt
  rw [Nat.not_le] at hlt
  rcases ends with rfl | opens
  · have hle := hw.here.length_le
    rw [List.append_nil] at hle
    exact Nat.not_le.2 hlt hle
  · refine hw.unmarked _ (List.length_pos_iff.2 hne) hlt ?_
    rwa [List.drop_left]

/-- A marker is a piece, unless a star follows that would make it longer. -/
theorem piece_style {t : Style} (marked : t ≠ .regular)
    (ends : t = .boldItalic ∨ ¬ ['*'] <+: rest) :
    Piece (List.replicate t.markerLength '*' ++ rest) (.style t)
      (List.replicate t.markerLength '*') := by
  have hle : t.markerLength ≤ 3 := by cases t <;> decide
  have hlength := markerLength_replicate hle (ends.imp_left fun (heq : t = .boldItalic) => heq ▸ rfl)
  obtain ⟨n, hn⟩ : ∃ n, t.markerLength = n + 1 := by
    cases t
    · exact absurd rfl marked
    all_goals exact ⟨_, rfl⟩
  have hmarker : Style.ofMarkerLength? t.markerLength = some t :=
    Style.ofMarkerLength?_eq_some_iff.2 ⟨rfl, hn ▸ Nat.succ_ne_zero n⟩
  have piece : Piece (List.replicate t.markerLength '*' ++ rest) (.style t)
      (List.replicate (markerLength (List.replicate t.markerLength '*' ++ rest)) '*') := by
    refine .style ?_ ?_ ?_ (hlength.symm ▸ hmarker)
    all_goals rw [hn, List.replicate_succ, List.cons_append]
    · exact not_opensColor_cons (by decide)
    · exact not_opensEmote_cons (by decide)
    · exact ⟨_, rfl⟩
  rwa [hlength] at piece

/-- **What is written is read**, whatever follows, as long as it ends the segment. -/
theorem Valid.piece (valid : s.Valid) (ends : s.EndsBefore rest) :
    Piece (s.written.toList ++ rest) s.kind s.written.toList := by
  cases s with
  | text v => exact IsText.piece valid ends
  | color name =>
    obtain ⟨e, he, rfl⟩ := valid
    rw [written_color he, kind]
    exact .color he (List.prefix_append _ _)
  | style t =>
    rw [written, String.toList_ofList]
    exact piece_style valid ends
  | emote id =>
    have piece : Piece (emoteText id.toList ++ rest) (.emote (String.ofList id.toList))
        (emoteText id.toList) :=
      .emote (not_opensColor_cons (by decide)) valid (List.prefix_append _ _)
    rw [String.ofList_toList] at piece
    rwa [written_emote, String.toList_ofList, kind]

end Piece

/-! ### One segment behind the other -/

section Neighbors

variable {s t : Segment} {rest : List Char}

/-- Where anything but a text is written, a marker begins. -/
theorem Valid.opensMarker (valid : t.Valid) (notText : ∀ v, t ≠ text v) :
    OpensMarker (t.written.toList ++ rest) := by
  cases t with
  | text v => exact absurd rfl (notText v)
  | color name =>
    obtain ⟨e, he, rfl⟩ := valid
    rw [written_color he]
    exact OpensColor.opensMarker ⟨e, he, List.prefix_append _ _⟩
  | style u =>
    cases u with
    | regular => exact absurd rfl valid
    | italic | bold | boldItalic => exact .inl ⟨_, rfl⟩
  | emote id =>
    rw [written_emote, String.toList_ofList]
    exact .inr (.inl ⟨_, rfl⟩)

/-- Where anything but stars is written, no star stands. -/
theorem Valid.not_star (valid : t.Valid) (notStyle : ∀ u, t ≠ style u) :
    ¬ ['*'] <+: t.written.toList ++ rest := by
  intro hstar
  cases t with
  | style u => exact notStyle u rfl
  | text v =>
    have text : IsText v := valid
    obtain ⟨c, cs, hcs⟩ : ∃ c cs, v.toList = c :: cs := List.exists_cons_of_ne_nil fun hnil =>
      text.ne_empty (String.toList_inj.1 (hnil.trans String.toList_empty.symm))
    rw [written, hcs] at hstar
    exact text.star (hcs ▸ (List.cons_prefix_cons.1 hstar).1 ▸ List.mem_cons_self)
  | color name =>
    obtain ⟨e, he, rfl⟩ := valid
    obtain ⟨b, hb, -, tail, htail⟩ := Escape.exists_body he
    rw [written_color he, hb, ← htail] at hstar
    exact absurd (List.cons_prefix_cons.1 hstar).1 (by decide)
  | emote id =>
    rw [written_emote, String.toList_ofList] at hstar
    exact absurd (List.cons_prefix_cons.1 hstar).1 (by decide)

/-- A neighbor that may follow ends a segment. -/
theorem MayPrecede.endsBefore (before : s.MayPrecede t) (valid : t.Valid) :
    s.EndsBefore (t.written.toList ++ rest) := by
  cases s with
  | color | emote => trivial
  | text v =>
    refine .inr (valid.opensMarker fun w hw => ?_)
    subst hw
    exact before
  | style u =>
    by_cases hstyle : ∃ u', t = style u'
    · obtain ⟨u', rfl⟩ := hstyle
      exact .inl before
    · exact .inr (valid.not_star fun u' hu' => hstyle ⟨u', hu'⟩)

/-- Every segment ends at the end. -/
theorem endsBefore_nil : s.EndsBefore [] := by
  cases s with
  | color | emote => trivial
  | text v => exact .inl rfl
  | style u => exact .inr fun hstar => by cases List.prefix_nil.1 hstar

end Neighbors

end Segment

open Segment

/-- **Segments that are written** are how the grammar cuts what is written. Induction on the
segments from the left: each is ended by the next one, or by the end of the source. -/
theorem WellFormed.segmentation {segments : List Segment} (wellFormed : WellFormed segments) :
    Segmentation (write segments).toList (segments.map piece) := by
  rw [toList_write]
  obtain ⟨valid, apart⟩ := wellFormed
  induction segments with
  | nil => exact .nil
  | cons s segments ih =>
    obtain ⟨hs, hsegments⟩ := List.forall_mem_cons.1 valid
    refine .cons (hs.piece ?_) (ih hsegments apart.tail)
    cases segments with
    | nil => exact endsBefore_nil
    | cons t segments =>
      exact (List.isChain_cons_cons.1 apart).1.endsBefore (hsegments t List.mem_cons_self)

/-- What is written is read again: every segment is a token, and the end comes after them. -/
theorem tokens_write {segments : List Segment} (wellFormed : WellFormed segments) :
    (tokenize (write segments)).map (fun t => (t.kind, t.value)) =
      segments.map (fun s => (s.kind, s.written)) ++ [(.eof, "")] := by
  have hsplit := segmentation_iff.1 wellFormed.segmentation
  have hplaced := congrArg (List.map fun q : Kind × List Char => (q.1, String.ofList q.2))
    (map_placed .start (segments.map piece))
  simp only [List.map_map, Function.comp_def, String.ofList_toList, piece] at hplaced
  rw [tokenize_eq, ← hsplit, List.map_append]
  simp only [hplaced]
  rfl

/-- The segment that a token is has the characters of the token. -/
theorem written_ofToken? {t : Token} {r : List Char} (piece : Piece r t.kind t.value.toList) :
    (ofToken? t).map written = some t.value := by
  generalize hv : t.value.toList = v at piece
  generalize hk : t.kind = k at piece
  have hvalue : t.value = String.ofList v := by rw [← hv, String.ofList_toList]
  cases piece with
  | color known here =>
    rw [ofToken?, hk, Option.map_some, written_color known, hvalue, String.ofList_toList]
  | @emote d noColor digits here =>
    rw [ofToken?, hk, Option.map_some, written_emote, hvalue, String.toList_ofList]
  | style noColor noEmote here marker =>
    rw [ofToken?, hk, Option.map_some, written, hvalue,
      (Style.ofMarkerLength?_eq_some_iff.1 marker).1]
  | text => rw [ofToken?, hk, Option.map_some, written]

/-- Tokens that are written give their source. -/
theorem write_tokens (source : String) : write ((tokenize source).filterMap ofToken?) = source := by
  have hseg := segmentation_iff.2 (Eq.refl (Lexer.split source.toList))
  have hbody : ((placed .start (Lexer.split source.toList)).filterMap ofToken?).map written =
      (placed .start (Lexer.split source.toList)).map Token.value := by
    rw [List.map_filterMap, ← List.filterMap_eq_map]
    exact List.filterMap_congr fun t ht => written_ofToken? (piece_of_mem ht).1
  have hend : [ending (Position.start.advance source.toList)].filterMap ofToken? = [] := rfl
  rw [tokenize_eq, List.filterMap_append, hend, List.append_nil, write, hbody,
    ← String.toList_inj, join_placed, hseg.joined_eq]

/-- **Markup that is written is read again**, and the other way round. Segments that can be
written one behind the other are the tokens of what is written, in order, with an end behind
them; and for every source what its tokens say, written again, is the source. -/
theorem markup_round_trip :
    (∀ segments, WellFormed segments →
      (tokenize (write segments)).map (fun t => (t.kind, t.value)) =
        segments.map (fun s => (s.kind, s.written)) ++ [(.eof, "")]) ∧
    ∀ source, write ((tokenize source).filterMap ofToken?) = source :=
  ⟨fun _ wellFormed => tokens_write wellFormed, write_tokens⟩

/-- A text that ends in the first character of an escape, a color, stars that do not join,
and digits between emotes. -/
theorem close_neighbors_kept_apart :
    WellFormed [.text "a\x1b", .color "RED", .style .boldItalic, .style .bold, .emote "4",
      .text "5[m", .emote "6"] ∧
    (tokenize "a\x1b\x1b[31m*****:4:5[m:6:").map (fun t => (t.kind, t.value)) =
      [(.text, "a\x1b"), (.color "RED", "\x1b[31m"), (.style .boldItalic, "***"),
        (.style .bold, "**"), (.emote "4", ":4:"), (.text, "5[m"), (.emote "6", ":6:"),
        (.eof, "")] := by
  have wellFormed : WellFormed [.text "a\x1b", .color "RED", .style .boldItalic, .style .bold,
      .emote "4", .text "5[m", .emote "6"] := by
    refine ⟨?_, by simp [MayPrecede]⟩
    intro s hs
    simp only [List.mem_cons, List.not_mem_nil, or_false] at hs
    rcases hs with rfl | rfl | rfl | rfl | rfl | rfl | rfl
    · exact ⟨by decide, by decide, by decide, by decide⟩
    · exact ⟨_, .tail _ (.head _), rfl⟩
    · exact Style.noConfusion
    · exact Style.noConfusion
    · exact ⟨by decide, List.forall_mem_singleton.2 (by decide)⟩
    · exact ⟨by decide, by decide, by decide, by decide⟩
    · exact ⟨by decide, List.forall_mem_singleton.2 (by decide)⟩
  have hwritten : write [.text "a\x1b", .color "RED", .style .boldItalic, .style .bold,
      .emote "4", .text "5[m", .emote "6"] = "a\x1b\x1b[31m*****:4:5[m:6:" := by decide
  have tokens := markup_round_trip.1 _ wellFormed
  rw [hwritten] at tokens
  exact ⟨wellFormed, tokens⟩

end Marquee.Markup
