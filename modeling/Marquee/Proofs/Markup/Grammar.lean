import Marquee.Markup.Lexer
import Mathlib.Data.List.TakeWhile
import Mathlib.Tactic.Common

/-!
# The Grammar of Markup

The lexer finds markup by cutting: at the first terminator, at the next colon, at the next
place where a marker may begin. This module says what it finds without any cutting, by
what the rest of the source begins with, and shows that the two agree everywhere.

A piece of a source is what the grammar has at a place (`Piece`), and a segmentation is a
source cut into such pieces one behind the other (`Segmentation`).

## Main statements

* `color?_eq_some_iff`, `emote?_eq_some_iff`, `style?_eq_some_iff` — each rule of the lexer
  finds exactly the markup that begins at hand;
* `isPlain_take`, `IsPlain.length_le` — the text rule takes the longest plain piece;
* `segmentation_iff` — the lexer's splitting is the only segmentation there is.
-/

namespace Marquee.Markup

/-! ### What may begin at a place -/

/-- The written form of an emote. -/
def emoteText (digits : List Char) : List Char := ':' :: (digits ++ [':'])

/-- Digits, at least one. -/
def IsDigits (d : List Char) : Prop := d ≠ [] ∧ ∀ c ∈ d, c.isDigit = true

/-- A known escape begins here. -/
def OpensColor (r : List Char) : Prop := ∃ e ∈ Escape.table, e.sequence.toList <+: r

/-- An emote begins here. -/
def OpensEmote (r : List Char) : Prop := ∃ d, IsDigits d ∧ emoteText d <+: r

/-- Something that ends plain text begins here: a star, a colon, or an escape, whether
it is known or not. -/
def OpensMarker (r : List Char) : Prop :=
  ['*'] <+: r ∨ [':'] <+: r ∨ ['\x1b', '['] <+: r

/-- The number of stars that a marker takes here. -/
def markerLength (r : List Char) : Nat := min 3 (r.takeWhile (· == '*')).length

/-- A non-empty piece of text from here on, with nothing behind its first character that
ends plain text. -/
structure IsPlain (r v : List Char) : Prop where
  ne_nil : v ≠ []
  here : v <+: r
  unmarked : ∀ i, 0 < i → i < v.length → ¬ OpensMarker (r.drop i)

/-- Cutting at the first `c` leaves `b` exactly if `b`, which has none, and a `c` begin the
text. -/
theorem takeWhile_ne_iff {c : Char} {s b : List Char} :
    s.takeWhile (· != c) = b ∧ b.length < s.length ↔ c ∉ b ∧ b ++ [c] <+: s := by
  constructor
  · rintro ⟨rfl, hlt⟩
    have hsplit : s.takeWhile (· != c) ++ s.dropWhile (· != c) = s :=
      List.takeWhile_append_dropWhile
    refine ⟨fun hc => by simpa using List.mem_takeWhile_imp hc, ?_⟩
    rcases hd : s.dropWhile (· != c) with _ | ⟨x, t⟩
    · rw [hd, List.append_nil] at hsplit
      rw [hsplit] at hlt
      omega
    · have hx := List.head?_dropWhile_not (· != c) s
      obtain rfl : x = c := by simpa [hd] using hx
      exact ⟨t, by rw [List.append_assoc, List.singleton_append, ← hd, hsplit]⟩
  · rintro ⟨hb, t, rfl⟩
    have hall : ∀ a ∈ b, (a != c) = true := fun a ha => by
      simpa using fun h : a = c => hb (h ▸ ha)
    constructor
    · rw [List.append_assoc, List.takeWhile_append_of_pos hall]
      simp
    · simp

/-- The look for an escape decides whether one is introduced. -/
theorem atEscape_iff {s : List Char} : Lexer.atEscape s = true ↔ ['\x1b', '['] <+: s :=
  List.isPrefixOf_iff_prefix

/-- The look for markup decides whether any opens. -/
theorem atMarker_iff {s : List Char} : Lexer.atMarker s = true ↔ OpensMarker s := by
  have hhead : ∀ c : Char, (s.head? == some c) = true ↔ [c] <+: s := fun c => by
    cases s with
    | nil => simp
    | cons x t =>
      rw [List.head?_cons, beq_iff_eq, Option.some.injEq, List.cons_prefix_cons, eq_comm]
      simp
  simp only [Lexer.atMarker, Bool.or_eq_true, hhead, atEscape_iff, OpensMarker, or_assoc]

/-- Every known escape is the introduction, some characters, and the terminator, which
occurs nowhere else in it. -/
theorem Escape.exists_body {e : Escape} (h : e ∈ Escape.table) :
    ∃ b, e.sequence.toList = b ++ [Escape.terminator] ∧ Escape.terminator ∉ b ∧
      Escape.intro <+: b := by
  simp only [Escape.table, List.mem_cons, List.not_mem_nil, or_false] at h
  rcases h with rfl | rfl | rfl | rfl | rfl | rfl | rfl
  · exact ⟨['\x1b', '[', '0'], by decide⟩
  · exact ⟨['\x1b', '[', '3', '1'], by decide⟩
  · exact ⟨['\x1b', '[', '3', '2'], by decide⟩
  · exact ⟨['\x1b', '[', '3', '3'], by decide⟩
  · exact ⟨['\x1b', '[', '3', '4'], by decide⟩
  · exact ⟨['\x1b', '[', '3', '5'], by decide⟩
  · exact ⟨['\x1b', '[', '3', '6'], by decide⟩

/-- A known escape begins like every escape. -/
theorem OpensColor.intro {r : List Char} (opens : OpensColor r) : ['\x1b', '['] <+: r := by
  obtain ⟨e, he, hpre⟩ := opens
  obtain ⟨b, hb, -, hintro⟩ := Escape.exists_body he
  rw [hb] at hpre
  exact hintro.trans ((List.prefix_append _ _).trans hpre)

/-- Nothing but markers opens markup. -/
theorem OpensColor.opensMarker {r : List Char} (opens : OpensColor r) : OpensMarker r :=
  .inr (.inr opens.intro)

/-- An emote that opens is markup. -/
theorem OpensEmote.opensMarker {r : List Char} (opens : OpensEmote r) : OpensMarker r := by
  obtain ⟨d, -, hpre⟩ := opens
  exact .inr (.inl (List.IsPrefix.trans ⟨d ++ [':'], rfl⟩ hpre))

/-- The escape rule finds exactly the known escapes that begin the text. -/
theorem color?_eq_some_iff {s : List Char} {p : Kind × Nat} :
    Lexer.color? s = some p ↔ ∃ e ∈ Escape.table, e.sequence.toList <+: s ∧
      p = (.color e.color, e.sequence.toList.length) := by
  constructor
  · intro h
    rw [Lexer.color?] at h
    split at h
    · dsimp only at h
      split at h
      · next hlt =>
        obtain ⟨name, hname, rfl⟩ := Option.map_eq_some_iff.1 h
        have hmem := Escape.color?_eq_some_iff.1 hname
        refine ⟨_, hmem, ?_, ?_⟩
        · rw [String.toList_ofList]
          exact (takeWhile_ne_iff.1 ⟨rfl, hlt⟩).2
        · simp
      · cases h
    · cases h
  · rintro ⟨e, he, hpre, rfl⟩
    obtain ⟨b, hb, hnot, hintro⟩ := Escape.exists_body he
    rw [hb] at hpre
    obtain ⟨hcut, hlt⟩ := takeWhile_ne_iff.2 ⟨hnot, hpre⟩
    have hat : Lexer.atEscape s = true :=
      atEscape_iff.2 (hintro.trans ((List.prefix_append _ _).trans hpre))
    have hseq : String.ofList (b ++ [Escape.terminator]) = e.sequence := by
      rw [← hb, String.ofList_toList]
    have hname : Escape.color? (String.ofList (b ++ [Escape.terminator])) = some e.color := by
      rw [hseq]
      exact Escape.color?_eq_some_iff.2 he
    simp only [Lexer.color?, hat, if_true, hcut, hlt, hname, Option.map_some, hb,
      List.length_append, List.length_singleton]

/-- The emote rule finds exactly the emotes that begin the text. -/
theorem emote?_eq_some_iff {s : List Char} {p : Kind × Nat} :
    Lexer.emote? s = some p ↔ ∃ d, IsDigits d ∧ emoteText d <+: s ∧
      p = (.emote (String.ofList d), d.length + 2) := by
  constructor
  · intro h
    rw [Lexer.emote?.eq_def] at h
    split at h
    · next r =>
      dsimp only at h
      split at h
      · next hc =>
        simp only [Bool.and_eq_true, decide_eq_true_eq, Bool.not_eq_true',
          List.isEmpty_eq_false_iff, List.all_eq_true] at hc
        obtain ⟨⟨hlt, hne⟩, hall⟩ := hc
        have hpre := (takeWhile_ne_iff.1 ⟨rfl, hlt⟩).2
        exact ⟨_, ⟨hne, hall⟩, List.cons_prefix_cons.2 ⟨rfl, hpre⟩, (Option.some.inj h).symm⟩
      · cases h
    · cases h
  · rintro ⟨d, ⟨hne, hall⟩, ⟨t, rfl⟩, rfl⟩
    have hnot : ':' ∉ d := fun h => by simpa using hall _ h
    obtain ⟨hcut, hlt⟩ := takeWhile_ne_iff.2 ⟨hnot, List.prefix_append (d ++ [':']) t⟩
    have hallb : d.all Char.isDigit = true := List.all_eq_true.2 hall
    have hneb : d.isEmpty = false := by simpa using hne
    rw [emoteText, List.cons_append, Lexer.emote?]
    simp only [hcut, hlt, hallb, hneb, decide_true, Bool.not_false, Bool.and_self, if_true]

/-- The star rule takes the marker that begins the text. -/
theorem style?_eq_some_iff {s : List Char} {p : Kind × Nat} :
    Lexer.style? s = some p ↔ ∃ style, Style.ofMarkerLength? (markerLength s) = some style ∧
      p = (.style style, markerLength s) := by
  have hlen : ((s.take 3).takeWhile (· == '*')).length = markerLength s := by
    rw [← List.take_takeWhile, List.length_take, markerLength]
  simp only [Lexer.style?, hlen, Option.map_eq_some_iff, eq_comm (b := p)]

/-- A marker has three stars at most. -/
theorem markerLength_le (r : List Char) : markerLength r ≤ 3 := Nat.min_le_left _ _

/-- A marker has a star exactly where one stands. -/
theorem markerLength_pos_iff {r : List Char} : 0 < markerLength r ↔ ['*'] <+: r := by
  cases r with
  | nil => simp [markerLength]
  | cons c t =>
    by_cases hc : c = '*'
    · subst hc
      simp only [markerLength, beq_self_eq_true, List.takeWhile_cons_of_pos, List.length_cons]
      exact ⟨fun _ => ⟨t, rfl⟩, fun _ => by omega⟩
    · have hcut : (c :: t).takeWhile (· == '*') = [] :=
        List.takeWhile_cons_of_neg (by simpa using hc)
      rw [markerLength, hcut, List.cons_prefix_cons]
      exact ⟨fun h => absurd h (by simp), fun h => absurd h.1.symm hc⟩

/-- A marker is written with stars alone. -/
theorem take_markerLength (r : List Char) :
    r.take (markerLength r) = List.replicate (markerLength r) '*' := by
  have hle : markerLength r ≤ (r.takeWhile (· == '*')).length := Nat.min_le_right _ _
  have htake : r.take (markerLength r) = (r.takeWhile (· == '*')).take (markerLength r) := by
    have happ : (r.takeWhile (· == '*') ++ r.dropWhile (· == '*')).take (markerLength r) =
        (r.takeWhile (· == '*')).take (markerLength r) := List.take_append_of_le_length hle
    rwa [List.takeWhile_append_dropWhile] at happ
  refine List.eq_replicate_iff.2 ⟨?_, fun c hc => ?_⟩
  · rw [htake, List.length_take]
    omega
  · rw [htake] at hc
    simpa using List.mem_takeWhile_imp (List.mem_of_mem_take hc)

/-- Where a star stands a marker is read. -/
theorem exists_style_of_star {r : List Char} (h : ['*'] <+: r) :
    ∃ style, Style.ofMarkerLength? (markerLength r) = some style := by
  have hpos := markerLength_pos_iff.2 h
  have hle := markerLength_le r
  obtain h1 | h2 | h3 : markerLength r = 1 ∨ markerLength r = 2 ∨ markerLength r = 3 := by
    omega
  · exact ⟨.italic, by rw [h1]; rfl⟩
  · exact ⟨.bold, by rw [h2]; rfl⟩
  · exact ⟨.boldItalic, by rw [h3]; rfl⟩

/-! ### Plain text -/

/-- There are no more plain characters than characters. -/
theorem plainLength_le (s : List Char) : Lexer.plainLength s ≤ s.length := by
  fun_induction Lexer.plainLength s with
  | case1 => exact Nat.le_refl _
  | case2 => exact Nat.zero_le _
  | case3 c r hc ih => simpa using ih

/-- No character that the text rule passes over ends plain text. -/
theorem not_opensMarker_of_lt {s : List Char} {i : Nat} (h : i < Lexer.plainLength s) :
    ¬ OpensMarker (s.drop i) := by
  fun_induction Lexer.plainLength s generalizing i with
  | case1 => exact absurd h (Nat.not_lt_zero _)
  | case2 => exact absurd h (Nat.not_lt_zero _)
  | case3 c r hc ih =>
    cases i with
    | zero => exact fun hm => hc (atMarker_iff.2 hm)
    | succ i => exact ih (Nat.lt_of_succ_lt_succ h)

/-- The text rule stops where plain text ends, or at the end of the source. -/
theorem opensMarker_drop_plainLength {s : List Char} (h : Lexer.plainLength s < s.length) :
    OpensMarker (s.drop (Lexer.plainLength s)) := by
  fun_induction Lexer.plainLength s with
  | case1 => exact absurd h (Nat.lt_irrefl _)
  | case2 c r hc => exact atMarker_iff.1 hc
  | case3 c r hc ih => exact ih (Nat.lt_of_succ_lt_succ h)

/-- The text rule takes a plain piece, -/
theorem isPlain_take {r : List Char} (h : r ≠ []) :
    IsPlain r (r.take (Lexer.text r).2) := by
  obtain ⟨c, t, rfl⟩ := List.exists_cons_of_ne_nil h
  refine ⟨by simp [Lexer.text], List.take_prefix _ _, fun i hi hlt => ?_⟩
  obtain ⟨j, rfl⟩ : ∃ j, i = j + 1 := ⟨i - 1, by omega⟩
  simp only [Lexer.text, List.tail_cons, List.length_take] at hlt
  rw [List.drop_succ_cons]
  exact not_opensMarker_of_lt (by omega)

/-- and no plain piece is longer. -/
theorem IsPlain.length_le {r v : List Char} (h : IsPlain r v) : v.length ≤ (Lexer.text r).2 := by
  obtain ⟨c, t, rfl⟩ := List.exists_cons_of_ne_nil (l := r) fun hr => by
    subst hr
    exact h.ne_nil (List.prefix_nil.1 h.here)
  by_contra hlt
  simp only [Lexer.text, List.tail_cons, not_le] at hlt
  have hv : v.length ≤ t.length + 1 := h.here.length_le
  exact h.unmarked (Lexer.plainLength t + 1) (Nat.succ_pos _) hlt
    (opensMarker_drop_plainLength (by omega))

/-! ### The grammar -/

/-- **What stands at a place**, given the rest of the source from there: the kind of the
token and its characters. The rules are tried in this order, and each says what begins
here without saying how it is found. -/
inductive Piece (r : List Char) : Kind → List Char → Prop
  /-- A known escape. -/
  | color {e : Escape} (known : e ∈ Escape.table) (here : e.sequence.toList <+: r) :
      Piece r (.color e.color) e.sequence.toList
  /-- Digits between two colons. -/
  | emote {d : List Char} (noColor : ¬ OpensColor r) (digits : IsDigits d)
      (here : emoteText d <+: r) : Piece r (.emote (String.ofList d)) (emoteText d)
  /-- As many stars as stand here, three at most. -/
  | style {style : Style} (noColor : ¬ OpensColor r) (noEmote : ¬ OpensEmote r)
      (here : ['*'] <+: r) (marker : Style.ofMarkerLength? (markerLength r) = some style) :
      Piece r (.style style) (List.replicate (markerLength r) '*')
  /-- The longest plain piece. -/
  | text {v : List Char} (noColor : ¬ OpensColor r) (noEmote : ¬ OpensEmote r)
      (noStar : ¬ ['*'] <+: r) (plain : IsPlain r v)
      (longest : ∀ w, IsPlain r w → w.length ≤ v.length) : Piece r .text v

/-- A source cut into pieces, each what stands at its place. -/
inductive Segmentation : List Char → List (Kind × List Char) → Prop
  | nil : Segmentation [] []
  | cons {k : Kind} {v rest : List Char} {more : List (Kind × List Char)} :
      Piece (v ++ rest) k v → Segmentation rest more →
      Segmentation (v ++ rest) ((k, v) :: more)

/-- No color is found exactly where none opens. -/
theorem color?_eq_none_iff {s : List Char} : Lexer.color? s = none ↔ ¬ OpensColor s := by
  rw [Option.eq_none_iff_forall_ne_some]
  constructor
  · rintro h ⟨e, he, hpre⟩
    exact h _ (color?_eq_some_iff.2 ⟨e, he, hpre, rfl⟩)
  · intro h p hp
    obtain ⟨e, he, hpre, -⟩ := color?_eq_some_iff.1 hp
    exact h ⟨e, he, hpre⟩

/-- No emote is found exactly where none opens. -/
theorem emote?_eq_none_iff {s : List Char} : Lexer.emote? s = none ↔ ¬ OpensEmote s := by
  rw [Option.eq_none_iff_forall_ne_some]
  constructor
  · rintro h ⟨d, hd, hpre⟩
    exact h _ (emote?_eq_some_iff.2 ⟨d, hd, hpre, rfl⟩)
  · intro h p hp
    obtain ⟨d, hd, hpre, -⟩ := emote?_eq_some_iff.1 hp
    exact h ⟨d, hd, hpre⟩

/-- No marker is found exactly where no star stands. -/
theorem style?_eq_none_iff {s : List Char} : Lexer.style? s = none ↔ ¬ ['*'] <+: s := by
  rw [Option.eq_none_iff_forall_ne_some]
  constructor
  · intro h hstar
    obtain ⟨style, hs⟩ := exists_style_of_star hstar
    exact h _ (style?_eq_some_iff.2 ⟨style, hs, rfl⟩)
  · intro h p hp
    obtain ⟨style, hs, -⟩ := style?_eq_some_iff.1 hp
    exact h (markerLength_pos_iff.1
      (Nat.pos_of_ne_zero (Style.ofMarkerLength?_eq_some_iff.1 hs).2))

/-- The rules tried in order, as equations of the first that does not decline. -/
theorem head_eq_of_color {r : List Char} {p : Kind × Nat} (h : Lexer.color? r = some p) :
    Lexer.head r = p := by
  simp [Lexer.head, h]

/-- An emote comes first where no color opens. -/
theorem head_eq_of_emote {r : List Char} {p : Kind × Nat} (hc : ¬ OpensColor r)
    (h : Lexer.emote? r = some p) : Lexer.head r = p := by
  simp [Lexer.head, color?_eq_none_iff.2 hc, h]

/-- A marker comes first where neither a color nor an emote opens. -/
theorem head_eq_of_style {r : List Char} {p : Kind × Nat} (hc : ¬ OpensColor r)
    (he : ¬ OpensEmote r) (h : Lexer.style? r = some p) : Lexer.head r = p := by
  simp [Lexer.head, color?_eq_none_iff.2 hc, emote?_eq_none_iff.2 he, h]

/-- Where none of them opens, a text comes first. -/
theorem head_eq_of_text {r : List Char} (hc : ¬ OpensColor r) (he : ¬ OpensEmote r)
    (hs : ¬ ['*'] <+: r) : Lexer.head r = Lexer.text r := by
  simp [Lexer.head, color?_eq_none_iff.2 hc, emote?_eq_none_iff.2 he, style?_eq_none_iff.2 hs]

/-- Whatever the grammar has at a place is what the lexer takes there. -/
theorem Piece.head_eq {r v : List Char} {k : Kind} (h : Piece r k v) :
    Lexer.head r = (k, v.length) ∧ v <+: r := by
  cases h with
  | color known here =>
    exact ⟨head_eq_of_color (color?_eq_some_iff.2 ⟨_, known, here, rfl⟩), here⟩
  | emote noColor digits here =>
    refine ⟨head_eq_of_emote noColor (emote?_eq_some_iff.2 ⟨_, digits, here, ?_⟩), here⟩
    simp [emoteText]
  | style noColor noEmote here marker =>
    constructor
    · rw [List.length_replicate]
      exact head_eq_of_style noColor noEmote (style?_eq_some_iff.2 ⟨_, marker, rfl⟩)
    · rw [← take_markerLength]
      exact List.take_prefix _ _
  | text noColor noEmote noStar plain longest =>
    have hr : r ≠ [] := fun hr => plain.ne_nil (List.prefix_nil.1 (hr ▸ plain.here))
    refine ⟨?_, plain.here⟩
    rw [head_eq_of_text noColor noEmote noStar]
    have hle : (Lexer.text r).2 ≤ v.length := by
      have h1 := longest _ (isPlain_take hr)
      have h2 := (isPlain_take hr).here.length_le
      have h3 : (Lexer.text r).2 ≤ r.length := by
        obtain ⟨c, t, rfl⟩ := List.exists_cons_of_ne_nil hr
        exact Nat.succ_le_succ (plainLength_le t)
      rwa [List.length_take_of_le h3] at h1
    exact Prod.ext rfl (Nat.le_antisymm hle plain.length_le)

/-- A piece has characters. -/
theorem Piece.ne_nil {r v : List Char} {k : Kind} (h : Piece r k v) : v ≠ [] := by
  rintro rfl
  have hpos := Lexer.head_length_pos r
  rw [h.head_eq.1] at hpos
  exact Nat.lt_irrefl _ hpos

/-- What the lexer takes at a place is what the grammar has there. -/
theorem piece_head {r : List Char} (h : r ≠ []) :
    Piece r (Lexer.head r).1 (r.take (Lexer.head r).2) := by
  by_cases hc : OpensColor r
  · obtain ⟨e, he, hpre⟩ := hc
    rw [head_eq_of_color (color?_eq_some_iff.2 ⟨e, he, hpre, rfl⟩),
      ← List.prefix_iff_eq_take.1 hpre]
    exact .color he hpre
  by_cases he : OpensEmote r
  · obtain ⟨d, hd, hpre⟩ := he
    have hlen : d.length + 2 = (emoteText d).length := by simp [emoteText]
    rw [head_eq_of_emote hc (emote?_eq_some_iff.2 ⟨d, hd, hpre, rfl⟩), hlen,
      ← List.prefix_iff_eq_take.1 hpre]
    exact .emote hc hd hpre
  by_cases hs : ['*'] <+: r
  · obtain ⟨style, hstyle⟩ := exists_style_of_star hs
    rw [head_eq_of_style hc he (style?_eq_some_iff.2 ⟨style, hstyle, rfl⟩),
      take_markerLength]
    exact .style hc he hs hstyle
  · rw [head_eq_of_text hc he hs]
    refine .text hc he hs (isPlain_take h) fun w hw => ?_
    have hw' := hw.here.length_le
    have hle := hw.length_le
    rw [List.length_take]
    omega

/-- No rule takes more than there is. -/
theorem head_length_le {r : List Char} (h : r ≠ []) : (Lexer.head r).2 ≤ r.length := by
  have hlen := congrArg Prod.snd (piece_head h).head_eq.1
  rw [List.length_take] at hlen
  omega

/-- A text is split into what comes first and the rest. -/
theorem split_of_ne_nil {s : List Char} (h : s ≠ []) :
    Lexer.split s = ((Lexer.head s).1, s.take (Lexer.head s).2) ::
      Lexer.split (s.drop (Lexer.head s).2) := by
  obtain ⟨c, r, rfl⟩ := List.exists_cons_of_ne_nil h
  rw [Lexer.split]

/-- A segmentation by the length of its first piece. -/
theorem Segmentation.of_take {s : List Char} {k : Kind} {n : Nat}
    {more : List (Kind × List Char)} (hp : Piece s k (s.take n))
    (hm : Segmentation (s.drop n) more) : Segmentation s ((k, s.take n) :: more) := by
  have hcons : Segmentation (s.take n ++ s.drop n) ((k, s.take n) :: more) :=
    .cons (by rwa [List.take_append_drop]) hm
  rwa [List.take_append_drop] at hcons

/-- The splitting is a segmentation, and there is no other. -/
theorem segmentation_iff {s : List Char} {ps : List (Kind × List Char)} :
    Segmentation s ps ↔ ps = Lexer.split s := by
  constructor
  · intro h
    induction h with
    | nil => rw [Lexer.split]
    | @cons k v rest more piece _ ih =>
      have hne : v ++ rest ≠ [] := List.append_ne_nil_of_left_ne_nil piece.ne_nil rest
      rw [split_of_ne_nil hne, piece.head_eq.1, List.take_left, List.drop_left, ih]
  · rintro rfl
    fun_induction Lexer.split s with
    | case1 => exact .nil
    | case2 c r ih => exact .of_take (piece_head (List.cons_ne_nil c r)) ih

end Marquee.Markup
