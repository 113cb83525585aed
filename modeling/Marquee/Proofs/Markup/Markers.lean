import Marquee.Markup.Reader
import Marquee.Proofs.Markup.Tokens
import Mathlib.Data.List.Chain
import Mathlib.Logic.Relation

/-!
# Open Markers

A style marker closes the one in force if it is equal to it, and opens its style otherwise.
So the markers that are open spell what is left of all markers read once equal neighbors
have cancelled each other: nested pairs vanish, crossed ones pile up.

In which order they cancel makes no difference. Pressing a marker twice undoes itself
(`press_press`), so the pen cannot tell a word of markers from the same word with a pair
taken out, and of a word without such a pair it drops nothing.

## Main statements

* `residue_iff` — every word of markers leaves one word, however its pairs are cancelled;
* `Pen.Over.walk` — the pen holds what is left of the markers that were read;
* `markers_cancel` — the styles of a pen, what it reports at the end, and which markers make
  no difference to it.
-/

namespace Marquee.Markup

open Relation (ReflTransGen)

/-! ### Cancelling -/

/-- Two equal neighbors are taken out of a word of markers. -/
inductive Cancels : List Style → List Style → Prop
  | pair (before : List Style) (s : Style) (after : List Style) :
      Cancels (before ++ s :: s :: after) (before ++ after)

/-- A word that is left of another, with nothing more to cancel. -/
structure Residue (word left : List Style) : Prop where
  reached : ReflTransGen Cancels word left
  settled : ∀ w, ¬ Cancels left w

/-- No two neighbors are equal. -/
def Distinct (word : List Style) : Prop := word.IsChain (· ≠ ·)

/-- The open markers after one more, the nearest first: an equal one is closed. -/
def press : List Style → Style → List Style
  | [], s => [s]
  | t :: ts, s => if s = t then ts else s :: t :: ts

/-- What is left of a word that is read from its start. -/
def reduced (word : List Style) : List Style := (word.foldl press []).reverse

/-- Neighbors differ if the first two do and the others do. -/
theorem distinct_cons_cons {s t : Style} {w : List Style} :
    Distinct (s :: t :: w) ↔ s ≠ t ∧ Distinct (t :: w) := List.isChain_cons_cons

/-- Neighbors differ in either direction. -/
theorem distinct_reverse {w : List Style} : Distinct w.reverse ↔ Distinct w := by
  simp only [Distinct, List.isChain_reverse, ne_comm]

/-- Nothing cancels in a word exactly if no two neighbors are equal. -/
theorem settled_iff {w : List Style} : (∀ w', ¬ Cancels w w') ↔ Distinct w := by
  rw [Distinct, List.isChain_iff_forall_rel_of_append_cons_cons]
  constructor
  · rintro settled s t before after rfl rfl
    exact settled _ (.pair before s after)
  · rintro distinct w' ⟨before, s, after⟩
    exact distinct rfl rfl

/-- Markers that are open differ from their neighbors. -/
theorem Distinct.press {u : List Style} (distinct : Distinct u) (s : Style) :
    Distinct (press u s) := by
  cases u with
  | nil => exact List.isChain_singleton s
  | cons t u =>
    rw [Markup.press]
    split
    · exact distinct.tail
    · next hne => exact distinct_cons_cons.2 ⟨hne, distinct⟩

/-- Pressing markers leaves no two equal ones side by side. -/
theorem Distinct.foldl_press {u : List Style} (distinct : Distinct u) (w : List Style) :
    Distinct (w.foldl Markup.press u) := by
  induction w generalizing u with
  | nil => exact distinct
  | cons s w ih => exact ih (distinct.press s)

/-- A marker pressed twice makes no difference. -/
theorem press_press {u : List Style} (distinct : Distinct u) (s : Style) :
    press (press u s) s = u := by
  cases u with
  | nil => simp [press]
  | cons t u =>
    by_cases heq : s = t
    · subst heq
      cases u with
      | nil => simp [press]
      | cons t u => simp [press, (distinct_cons_cons.1 distinct).1]
    · simp [press, heq]

/-- Pressing the markers of a word comes to the same if a pair is taken out of it. -/
theorem Cancels.foldl_press {w w' : List Style} (cancels : Cancels w w') {u : List Style}
    (distinct : Distinct u) : w.foldl press u = w'.foldl press u := by
  obtain ⟨before, s, after⟩ := cancels
  rw [List.foldl_append, List.foldl_append, List.foldl_cons, List.foldl_cons,
    press_press (distinct.foldl_press before)]

/-- Markers that differ from their neighbors all stay open. -/
theorem Distinct.foldl_press_eq {w u : List Style} (distinct : Distinct (w.reverse ++ u)) :
    w.foldl Markup.press u = w.reverse ++ u := by
  induction w generalizing u with
  | nil => rfl
  | cons s w ih =>
    rw [List.reverse_cons, List.append_assoc, List.singleton_append] at distinct ⊢
    have hpress : Markup.press u s = s :: u := by
      cases u with
      | nil => rfl
      | cons t u => exact if_neg (distinct_cons_cons.1 distinct.right_of_append).1
    rw [List.foldl_cons, hpress, ih distinct]

/-- Pressing markers is one way to cancel: the one at hand meets the nearest open one. -/
theorem reaches_foldl_press (u w : List Style) :
    ReflTransGen Cancels (u.reverse ++ w) (w.foldl press u).reverse := by
  induction w generalizing u with
  | nil =>
    rw [List.append_nil]
    exact .refl
  | cons s w ih =>
    have hstep : ReflTransGen Cancels (u.reverse ++ s :: w) ((press u s).reverse ++ w) := by
      cases u with
      | nil => exact .refl
      | cons t u =>
        by_cases heq : s = t
        · subst heq
          rw [press, if_pos rfl, List.reverse_cons, List.append_assoc]
          exact .single (.pair _ s w)
        · have hword : (t :: u).reverse ++ s :: w = (s :: t :: u).reverse ++ w := by simp
          rw [press, if_neg heq, hword]
    exact hstep.trans (ih (press u s))

/-- Whatever is canceled on the way, the same is left in the end. -/
theorem reduced_of_reaches {w w' : List Style} (reaches : ReflTransGen Cancels w w') :
    reduced w' = reduced w := by
  induction reaches with
  | refl => rfl
  | tail _ cancels ih => rw [← ih, reduced, reduced, cancels.foldl_press .nil]

/-- What is left has no two equal neighbors. -/
theorem distinct_reduced (w : List Style) : Distinct (reduced w) :=
  distinct_reverse.2 (Distinct.foldl_press .nil w)

/-- Without equal neighbors nothing is canceled. -/
theorem reduced_of_distinct {w : List Style} (distinct : Distinct w) : reduced w = w := by
  have hreverse : Distinct (w.reverse ++ []) := by
    rw [List.append_nil]
    exact distinct_reverse.2 distinct
  rw [reduced, hreverse.foldl_press_eq, List.append_nil, List.reverse_reverse]

/-- **One word is left**, in whatever order the pairs of a word are cancelled. -/
theorem residue_iff {w r : List Style} : Residue w r ↔ r = reduced w := by
  constructor
  · rintro ⟨reached, settled⟩
    rw [← reduced_of_reaches reached, reduced_of_distinct (settled_iff.1 settled)]
  · rintro rfl
    exact ⟨reaches_foldl_press [] w, settled_iff.2 (distinct_reduced w)⟩

/-! ### Markers among tokens -/

/-- The style that a token toggles, if it is a marker. -/
def Kind.marker? : Kind → Option Style
  | .style s => some s
  | _ => none

/-- The markers among some tokens. -/
def markers (ts : List Token) : List Style := ts.filterMap (·.kind.marker?)

/-- The marker of the first token, if it is one, comes first. -/
theorem markers_cons (t : Token) (ts : List Token) :
    markers (t :: ts) = t.kind.marker?.toList ++ markers ts := by
  cases h : t.kind.marker? <;> simp [markers, h]

/-- The markers of tokens in a row are in a row. -/
theorem markers_append (ts us : List Token) : markers (ts ++ us) = markers ts ++ markers us :=
  List.filterMap_append

/-- Tokens as a lexer makes them: only the last may be an end, and no marker stands for the
regular style. -/
structure Orderly (ts : List Token) : Prop where
  ended : ∀ t ∈ ts.dropLast, t.kind ≠ .eof
  marked : Style.regular ∉ markers ts

/-- The first ones of orderly tokens are orderly. -/
theorem Orderly.initial {ts before : List Token} (orderly : Orderly ts) (first : before <+: ts) :
    Orderly before := by
  obtain ⟨after, rfl⟩ := first
  constructor
  · rcases List.eq_nil_or_concat' after with rfl | ⟨after, t, rfl⟩
    · rw [List.append_nil] at orderly
      exact orderly.ended
    · intro t ht
      refine orderly.ended t ?_
      rw [← List.append_assoc, List.dropLast_concat]
      exact List.mem_append_left _ (List.dropLast_subset _ ht)
  · intro hmem
    refine orderly.marked ?_
    rw [markers_append]
    exact List.mem_append_left _ hmem

/-- What follows the first of orderly tokens is orderly. -/
theorem Orderly.tail {t : Token} {ts : List Token} (orderly : Orderly (t :: ts)) : Orderly ts := by
  constructor
  · intro u hu
    have hne : ts ≠ [] := fun hnil => by
      rw [hnil] at hu
      cases hu
    exact orderly.ended u (by rw [List.dropLast_cons_of_ne_nil hne]; exact .tail _ hu)
  · intro hmem
    refine orderly.marked ?_
    rw [markers_cons]
    exact List.mem_append_right _ hmem

/-- No marker of orderly tokens is for the regular style. -/
theorem Orderly.ne_regular {t : Token} {ts : List Token} (orderly : Orderly (t :: ts)) {s : Style}
    (marker : t.kind = .style s) : s ≠ .regular := by
  rintro rfl
  refine orderly.marked ?_
  rw [markers_cons, marker]
  exact List.mem_cons_self

/-- Nothing follows an end. -/
theorem Orderly.eq_nil_of_eof {t : Token} {ts : List Token} (orderly : Orderly (t :: ts))
    (last : t.kind = .eof) : ts = [] := by
  by_contra hne
  refine orderly.ended t ?_ last
  rw [List.dropLast_cons_of_ne_nil hne]
  exact List.mem_cons_self

/-- No piece is a marker for the regular style. -/
theorem Piece.style_ne_regular {r v : List Char} {k : Kind} {s : Style} (h : Piece r k v)
    (hk : k = .style s) : s ≠ .regular := by
  cases h with
  | color | emote | text => cases hk
  | style _ _ _ marker =>
    cases hk
    rintro rfl
    obtain ⟨hlength, hne⟩ := Style.ofMarkerLength?_eq_some_iff.1 marker
    exact hne hlength.symm

/-- A marker is that of a style token. -/
theorem Kind.marker?_eq_some_iff {k : Kind} {s : Style} : k.marker? = some s ↔ k = .style s := by
  cases k <;> simp [Kind.marker?]

/-- The tokens of a source are orderly. -/
theorem orderly_tokenize (source : String) : Orderly (tokenize source) := by
  rw [tokenize_eq]
  constructor
  · rw [List.dropLast_concat]
    exact fun t ht => (piece_of_mem ht).1.kind_ne_eof
  · intro hmem
    obtain ⟨t, ht, hmarker⟩ := List.mem_filterMap.1 hmem
    rcases List.mem_append.1 ht with ht | ht
    · exact (piece_of_mem ht).1.style_ne_regular (Kind.marker?_eq_some_iff.1 hmarker) rfl
    · obtain rfl := List.mem_singleton.1 ht
      cases hmarker

/-! ### The pen -/

namespace Pen

/-- All styles of a pen, from the one in force down to the first. -/
def styles (p : Pen) : List Style := p.style :: p.beneath

/-- The styles of a pen are some open markers over the regular style, and no two neighbors
among them are equal. -/
structure Over (p : Pen) (u : List Style) : Prop where
  styles_eq : p.styles = u ++ [.regular]
  distinct : Distinct (u ++ [.regular])

/-- A fresh pen stands over nothing but the regular style. -/
theorem over_start : Over .start [] := ⟨rfl, List.isChain_singleton _⟩

variable {p : Pen} {u : List Style} {s : Style}

/-- Toggling a style presses its marker on those that are open. -/
theorem Over.toggle_styles (pen : p.Over u) (marker : s ≠ .regular) :
    (p.toggle s).styles = press u s ++ [.regular] := by
  obtain ⟨color, style, beneath⟩ := p
  have hstyles : style :: beneath = u ++ [.regular] := pen.styles_eq
  cases u with
  | nil =>
    obtain ⟨rfl, rfl⟩ : style = .regular ∧ beneath = [] := by simpa using hstyles
    simp [toggle, marker, press, styles]
  | cons t u =>
    obtain ⟨rfl, rfl⟩ : style = t ∧ beneath = u ++ [.regular] := by simpa using hstyles
    by_cases heq : s = style
    · have hne : u ++ [Style.regular] ≠ [] := by simp
      obtain ⟨t, ts, hcons⟩ := List.exists_cons_of_ne_nil hne
      simp [toggle, press, styles, heq, hcons]
    · simp [toggle, press, styles, heq]

/-- A marker is pressed on those that are open. The regular style is the lowest one and no marker
stands for it, so it is never closed. -/
theorem Over.toggle (pen : p.Over u) (marker : s ≠ .regular) : (p.toggle s).Over (press u s) := by
  refine ⟨pen.toggle_styles marker, ?_⟩
  cases u with
  | nil => exact distinct_cons_cons.2 ⟨marker, pen.distinct⟩
  | cons t u =>
    rw [press]
    split
    · exact pen.distinct.tail
    · next hne => exact distinct_cons_cons.2 ⟨hne, pen.distinct⟩

/-- Toggling a style twice changes nothing. -/
theorem Over.toggle_toggle (pen : p.Over u) (marker : s ≠ .regular) :
    (p.toggle s).toggle s = p := by
  have hu : Distinct u := pen.distinct.left_of_append
  have hstyles : ((p.toggle s).toggle s).styles = p.styles := by
    rw [(pen.toggle marker).toggle_styles marker, press_press hu, pen.styles_eq]
  have hcolor : ((p.toggle s).toggle s).color = p.color := by rw [toggle_color, toggle_color]
  obtain ⟨hstyle, hbeneath⟩ := List.cons.inj hstyles
  generalize (p.toggle s).toggle s = q at hcolor hstyle hbeneath
  cases q
  cases p
  simp_all

/-- **What a reading leaves on the pen**: the markers that were read are pressed on those
that were open. -/
theorem Over.walk {ts : List Token} (pen : p.Over u) (orderly : Orderly ts) :
    (Reader.walk p ts).2.1.Over ((markers ts).foldl press u) := by
  induction ts generalizing p u with
  | nil => exact pen
  | cons t ts ih =>
    have ih := fun {p : Pen} {u : List Style} (pen : p.Over u) => ih pen orderly.tail
    rw [Reader.walk, markers_cons]
    split
    · next hkind => simpa [hkind, Kind.marker?] using ih pen
    · next hkind => simpa [hkind, Kind.marker?] using ih pen
    · next name hkind =>
      have dipped : (p.dip name).Over u := ⟨pen.styles_eq, pen.distinct⟩
      simpa [hkind, Kind.marker?] using ih dipped
    · next s hkind =>
      simpa [hkind, Kind.marker?] using ih (pen.toggle (orderly.ne_regular hkind))
    · next hkind =>
      rw [orderly.eq_nil_of_eof hkind, hkind]
      exact pen

/-- A pair of equal markers makes no difference to what is read, wherever it stands. -/
theorem Over.walk_pair {before : List Token} {t₁ t₂ : Token} (pen : p.Over u)
    (marked : .regular ∉ markers before) (first : t₁.kind = .style s) (second : t₂.kind = .style s)
    (marker : s ≠ .regular) (after : List Token) :
    (Reader.walk p (before ++ t₁ :: t₂ :: after)).1 = (Reader.walk p (before ++ after)).1 ∧
      (Reader.walk p (before ++ t₁ :: t₂ :: after)).2.1 =
        (Reader.walk p (before ++ after)).2.1 := by
  induction before generalizing p u with
  | nil =>
    have hwalk : Reader.walk p (t₁ :: t₂ :: after) = Reader.walk p after := by
      rw [Reader.walk, first]
      dsimp only
      rw [Reader.walk, second]
      dsimp only
      rw [pen.toggle_toggle marker]
    rw [List.nil_append, List.nil_append, hwalk]
    exact ⟨rfl, rfl⟩
  | cons t before ih =>
    rw [markers_cons, List.mem_append, not_or] at marked
    obtain ⟨hhead, htail⟩ := marked
    have ih := fun {p : Pen} {u : List Style} (pen : p.Over u) => ih pen htail
    rw [List.cons_append, List.cons_append, Reader.walk, Reader.walk]
    split
    · obtain ⟨hleaves, hpen⟩ := ih pen
      exact ⟨congrArg (List.cons _) hleaves, hpen⟩
    · obtain ⟨hleaves, hpen⟩ := ih pen
      exact ⟨congrArg (List.cons _) hleaves, hpen⟩
    · exact ih (p := p.dip _) ⟨pen.styles_eq, pen.distinct⟩
    · next s hkind =>
      refine ih (pen.toggle fun hs => hhead ?_)
      rw [hkind, hs]
      exact List.mem_singleton.2 rfl
    · exact ⟨rfl, rfl⟩

end Pen

/-! ### Reading from the start -/

/-- The pen once some tokens are read with a fresh one. -/
def finalPen (ts : List Token) : Pen := (Reader.ofTokens ts).read.2.2.pen

/-- The pen behind some tokens stands over what is left of their markers. -/
theorem finalPen_over {ts : List Token} (orderly : Orderly ts) :
    (finalPen ts).Over (reduced (markers ts)).reverse := by
  rw [reduced, List.reverse_reverse]
  exact Pen.over_start.walk orderly

/-- Parsing is reading with a fresh pen, and reporting the markers left open. -/
theorem parse_eq (ts : List Token) :
    parse ts = ((Reader.walk .start ts).1, Reader.openMarkers (finalPen ts)) := rfl

/-- A pair of equal markers makes no difference to a reading from the start. -/
theorem parse_pair {before after : List Token} {t₁ t₂ : Token} {s : Style}
    (marked : .regular ∉ markers before) (first : t₁.kind = .style s) (second : t₂.kind = .style s)
    (marker : s ≠ .regular) :
    finalPen (before ++ t₁ :: t₂ :: after) = finalPen (before ++ after) ∧
      parse (before ++ t₁ :: t₂ :: after) = parse (before ++ after) := by
  obtain ⟨hleaves, hpen⟩ := Pen.over_start.walk_pair marked first second marker after
  have hfinal : finalPen (before ++ t₁ :: t₂ :: after) = finalPen (before ++ after) := hpen
  refine ⟨hfinal, ?_⟩
  rw [parse_eq, parse_eq, hleaves, hfinal]

/-- **Markers cancel.** The tokens of a source are orderly. Of the markers among orderly tokens
one word is left, in whatever order equal neighbors are cancelled, and any way to cancel can
be continued to it. After reading, the styles of the pen from the lowest to the one in force
are the regular style and that word. Hence on the way no two neighbors among them are ever
equal, the pen is back at the regular style exactly if the markers cancel to nothing, and a
pair of equal markers makes no difference wherever it is put in. Reading reports open markers
exactly if some are left, and how many. -/
theorem markers_cancel :
    (∀ source, Orderly (tokenize source)) ∧
    ∀ ts, Orderly ts → ∃ left, (∀ r, Residue (markers ts) r ↔ r = left) ∧
      (∀ w, ReflTransGen Cancels (markers ts) w → ReflTransGen Cancels w left) ∧
      (finalPen ts).styles.reverse = .regular :: left ∧
      (∀ before, before <+: ts → Distinct (finalPen before).styles.reverse) ∧
      ((finalPen ts).style = .regular ∧ (finalPen ts).beneath = [] ↔
        ReflTransGen Cancels (markers ts) []) ∧
      (∀ before after t₁ t₂ s, ts = before ++ after → t₁.kind = .style s → t₂.kind = .style s →
        s ≠ .regular → finalPen (before ++ t₁ :: t₂ :: after) = finalPen ts ∧
          parse (before ++ t₁ :: t₂ :: after) = parse ts) ∧
      (parse ts).2 =
        (if left = [] then [] else [.markersLeftOpen left.length (finalPen ts).style]) ∧
      ∀ e ∈ (parse ts).2, e.level = .debug ∧
        e.message = "markup ended with unclosed style markers" ∧
        ("open", toString left.length) ∈ e.fields := by
  refine ⟨orderly_tokenize, fun ts orderly => ?_⟩
  have pen := finalPen_over orderly
  have hstyles : (finalPen ts).styles.reverse = .regular :: reduced (markers ts) := by
    rw [pen.styles_eq, List.reverse_append, List.reverse_reverse]
    rfl
  have hlength : (finalPen ts).beneath.length = (reduced (markers ts)).length := by
    have hlength := congrArg List.length hstyles
    rw [List.length_reverse] at hlength
    exact Nat.succ.inj hlength
  have hevents : (parse ts).2 = if reduced (markers ts) = [] then [] else
      [.markersLeftOpen (reduced (markers ts)).length (finalPen ts).style] := by
    rw [parse_eq, Reader.openMarkers, hlength]
    simp only [List.isEmpty_iff_length_eq_zero, hlength, List.length_eq_zero_iff]
  refine ⟨reduced (markers ts), fun r => residue_iff, fun w reaches => ?_, hstyles,
    fun before first => ?_, ⟨fun ⟨_, hbeneath⟩ => ?_, fun reaches => ?_⟩, ?_, hevents, ?_⟩
  · rw [← reduced_of_reaches reaches]
    exact reaches_foldl_press [] w
  · have hover := finalPen_over (orderly.initial first)
    rw [distinct_reverse, hover.styles_eq]
    exact hover.distinct
  · rw [hbeneath] at hlength
    rw [← List.eq_nil_of_length_eq_zero hlength.symm]
    exact reaches_foldl_press [] (markers ts)
  · rw [← reduced_of_reaches reaches] at hstyles
    obtain ⟨hstyle, hbeneath⟩ := List.cons.inj (List.reverse_eq_iff.1 hstyles)
    exact ⟨hstyle, hbeneath⟩
  · rintro before after t₁ t₂ s rfl first second marker
    refine parse_pair (fun hmem => orderly.marked ?_) first second marker
    rw [markers_append]
    exact List.mem_append_left _ hmem
  · intro e he
    rw [hevents] at he
    split at he
    · cases he
    · obtain rfl := List.mem_singleton.1 he
      exact ⟨rfl, rfl, List.mem_cons_self⟩

/-- Crossed markers do not meet their equals, so all three stay open. -/
theorem crossed_markers_pile_up :
    ∃ a b c : Token, a.kind = .style .bold ∧ b.kind = .style .italic ∧ c.kind = .style .bold ∧
      (finalPen [a, b, c]).styles.reverse = [.regular, .bold, .italic, .bold] ∧
      (parse [a, b, c]).2 = [.markersLeftOpen 3 .bold] := by
  let a : Token := ⟨.style .bold, "**", ⟨0, 2, 1, 1⟩⟩
  let b : Token := ⟨.style .italic, "*", ⟨3, 4, 1, 4⟩⟩
  let c : Token := ⟨.style .bold, "**", ⟨5, 7, 1, 6⟩⟩
  have orderly : Orderly [a, b, c] := ⟨by decide, by decide⟩
  obtain ⟨left, hleft, -, hstyles, -, -, -, hevents, -⟩ := markers_cancel.2 _ orderly
  obtain rfl : [.bold, .italic, .bold] = left :=
    (hleft _).1 ⟨.refl, settled_iff.2 (by simp [Distinct])⟩
  exact ⟨a, b, c, rfl, rfl, rfl, hstyles, hevents⟩

end Marquee.Markup
