import Marquee.Proofs.Markup.Tokens
import Mathlib.Data.List.DropRight

/-!
# Where Tokens Stand

A position is counted on character by character, whatever piece a character falls into. So it
can be read off the characters passed: how many they are, how many of them end a line, and how
many come after the last one that does. A rule that declines has passed nothing, and a newline
that it looked at counts once, in the piece that takes it.

## Main statements

* `Position.advance_start` — a position is read off the characters before it;
* `exists_prefix_of_mem_locate` — each token stands behind some characters of the source;
* `tokenize_located` — **line and column** of every token, the end included.
-/

namespace Marquee.Markup

/-- **Counted on from the start**, a position is read off the characters before it. Induction
from the right, as the last character is the last one counted. -/
theorem Position.advance_start (cs : List Char) :
    start.advance cs =
      ⟨cs.length, 1 + cs.count '\n', 1 + (cs.rtakeWhile (· != '\n')).length⟩ := by
  induction cs using List.reverseRecOn with
  | nil => rfl
  | append_singleton cs c ih =>
    rw [advance_append, ih, advance_cons, advance_nil, step, List.length_append,
      List.length_singleton, List.count_append]
    by_cases hc : c = '\n'
    · rw [if_pos hc, List.rtakeWhile_concat_neg _ _ _ (by simpa using hc), hc,
        List.count_singleton_self, Nat.add_assoc]
      rfl
    · rw [if_neg hc, List.rtakeWhile_concat_pos _ _ _ (by simpa using hc),
        List.count_singleton, if_neg (by simpa using hc), List.length_append,
        List.length_singleton, Nat.add_zero, Nat.add_assoc]
      rfl

/-- A token, the end included, stands where some first characters of the pieces lead. -/
theorem exists_prefix_of_mem_locate {p : Position} {ps : List (Kind × List Char)} {t : Token}
    (h : t ∈ Lexer.locate p ps) :
    ∃ cs q, cs <+: joined ps ∧ t.span = .between (p.advance cs) q := by
  induction ps generalizing p with
  | nil =>
    obtain rfl := List.mem_singleton.1 h
    exact ⟨[], p, List.nil_prefix, rfl⟩
  | cons piece ps ih =>
    obtain ⟨k, v⟩ := piece
    rcases List.mem_cons.1 h with rfl | h
    · exact ⟨[], p.advance v, List.nil_prefix, rfl⟩
    · obtain ⟨cs, q, hprefix, hspan⟩ := ih h
      refine ⟨v ++ cs, q, ?_, ?_⟩
      · rw [joined_cons]
        exact (List.prefix_append_right_inj v).2 hprefix
      · rw [hspan, Position.advance_append]

/-- **Line and column.** Every token, the end included, starts inside the source or at its end,
on the line after as many newlines as come before it, and in the column after as many
characters as come between the last of them, or the start of the source, and itself. -/
theorem tokenize_located {source : String} {t : Token} (h : t ∈ tokenize source) :
    let before := source.toList.take t.span.start
    t.span.start ≤ source.length ∧ t.span.line = 1 + before.count '\n' ∧
      t.span.column = 1 + (before.rtakeWhile (· != '\n')).length := by
  obtain ⟨cs, q, hprefix, hspan⟩ := exists_prefix_of_mem_locate h
  have hsource : joined (Lexer.split source.toList) = source.toList :=
    Lexer.flatten_split source.toList
  rw [Lexer.ofText, hsource] at hprefix
  rw [Lexer.ofText, Position.advance_start] at hspan
  have hstart : t.span.start = cs.length := congrArg Span.start hspan
  dsimp only
  rw [hstart, ← List.prefix_iff_eq_take.1 hprefix]
  refine ⟨?_, congrArg Span.line hspan, congrArg Span.column hspan⟩
  rw [← String.length_toList]
  exact hprefix.length_le

/-- Three newlines come before the emote: one in plain text, one inside an escape that is not
finished, and one between the colons of what is no emote. -/
theorem newlines_in_declined_markup :
    ∃ t ∈ tokenize "a\n\x1b[3\n:\né*:7:", t.kind = .emote "7" ∧ t.span.start = 10 ∧
      t.span.line = 4 ∧ t.span.column = 3 := by
  have htoken : ∃ t ∈ tokenize "a\n\x1b[3\n:\né*:7:", t.kind = .emote "7" ∧ t.span.start = 10 := by
    decide +kernel
  obtain ⟨t, ht, hkind, hstart⟩ := htoken
  obtain ⟨-, hline, hcolumn⟩ := tokenize_located ht
  rw [hstart] at hline hcolumn
  exact ⟨t, ht, hkind, hstart, hline, hcolumn⟩

end Marquee.Markup
