import Marquee.Proofs.Markup.Cursor
import Mathlib.Logic.Function.Iterate

/-!
# The Tokens of a Source

What tokenizing returns, for every source: tokens that lie side by side and carry the
characters they lie on, cut as the grammar says, and one end behind them.

## Main statements

* `locate_eq`, `contiguous_placed` — pieces put in their places cover the source without a
  gap, and the end stands behind them;
* `exists_of_mem_placed` — a token carries the piece that stands at its offset;
* `tokenize_covers` — **nothing is lost**, nothing outside the source is read, and a lexer
  that is through has only its end left;
* `tokenize_segments` — **the grammar decides**: the tokens are the only segmentation.
-/

namespace Marquee.Markup

/-! ### Pieces in their places -/

/-- Pieces laid end to end from a place on, as tokens. -/
def placed (p : Position) : List (Kind × List Char) → List Token
  | [] => []
  | (kind, cs) :: more =>
    ⟨kind, String.ofList cs, .between p (p.advance cs)⟩ :: placed (p.advance cs) more

/-- The end of a source at a place. -/
def ending (p : Position) : Token := ⟨.eof, "", .between p p⟩

/-- The characters of some pieces, one behind the other. -/
def joined (ps : List (Kind × List Char)) : List Char := (ps.map (·.2)).flatten

/-- The value of the first piece comes first. -/
@[simp]
theorem joined_cons (k : Kind) (v : List Char) (ps : List (Kind × List Char)) :
    joined ((k, v) :: ps) = v ++ joined ps := rfl

/-- Located tokens are the placed pieces and an end. -/
theorem locate_eq (p : Position) (ps : List (Kind × List Char)) :
    Lexer.locate p ps = placed p ps ++ [ending (p.advance (joined ps))] := by
  induction ps generalizing p with
  | nil => rfl
  | cons q ps ih =>
    obtain ⟨k, v⟩ := q
    rw [Lexer.locate, placed, joined_cons, Position.advance_append, ih, List.cons_append]

/-- Some tokens cover the offsets from `i` up to `j`: the first starts at `i`, each other
one where the one before stops, the last stops at `j`, and none is empty. -/
def Contiguous (i : Nat) : List Token → Nat → Prop
  | [], j => i = j
  | t :: ts, j => t.span.start = i ∧ i < t.span.stop ∧ Contiguous t.span.stop ts j

/-- Pieces that are placed follow each other without a gap. -/
theorem contiguous_placed {ps : List (Kind × List Char)} (h : ∀ q ∈ ps, q.2 ≠ [])
    (p : Position) : Contiguous p.offset (placed p ps) (p.offset + (joined ps).length) := by
  induction ps generalizing p with
  | nil => rfl
  | cons q ps ih =>
    obtain ⟨k, v⟩ := q
    have hstop : (p.advance v).offset = p.offset + v.length := Position.advance_offset p v
    have hpos : 0 < v.length := List.length_pos_iff.2 (h _ List.mem_cons_self)
    have hlt : p.offset < (p.advance v).offset := by omega
    rw [joined_cons, List.length_append, ← Nat.add_assoc, ← hstop]
    exact ⟨rfl, hlt, ih (fun q hq => h q (List.mem_cons_of_mem _ hq)) (p.advance v)⟩

/-- There are no more tokens than offsets that they cover. -/
theorem Contiguous.length_le {ts : List Token} {i j : Nat} (h : Contiguous i ts j) :
    i + ts.length ≤ j := by
  induction ts generalizing i with
  | nil => exact Nat.le_of_eq h
  | cons t ts ih =>
    obtain ⟨-, hlt, hmore⟩ := h
    have hle := ih hmore
    rw [List.length_cons]
    omega

/-- A token carries one of the pieces, and starts as many characters behind the first
place as the pieces before it have. -/
theorem exists_of_mem_placed {ps : List (Kind × List Char)} {p : Position} {t : Token}
    (h : t ∈ placed p ps) : ∃ before k v after, ps = before ++ (k, v) :: after ∧
      t.kind = k ∧ t.value = String.ofList v ∧
      t.span.start = p.offset + (joined before).length ∧
      t.span.stop = t.span.start + v.length := by
  induction ps generalizing p with
  | nil => cases h
  | cons q ps ih =>
    obtain ⟨k, v⟩ := q
    rcases List.mem_cons.1 h with rfl | h
    · exact ⟨[], k, v, ps, rfl, rfl, rfl, rfl, Position.advance_offset p v⟩
    · obtain ⟨before, k', v', after, rfl, hk, hv, hstart, hstop⟩ := ih h
      refine ⟨(k, v) :: before, k', v', after, rfl, hk, hv, ?_, hstop⟩
      rw [hstart, Position.advance_offset, joined_cons, List.length_append, Nat.add_assoc]

/-- The pieces that tokens carry. -/
theorem map_placed (p : Position) (ps : List (Kind × List Char)) :
    (placed p ps).map (fun t => (t.kind, t.value.toList)) = ps := by
  induction ps generalizing p with
  | nil => rfl
  | cons q ps ih =>
    obtain ⟨k, v⟩ := q
    rw [placed, List.map_cons, ih, String.toList_ofList]

/-! ### Segmentations in their places -/

/-- The pieces of a text, one after the other, are the text. -/
theorem Segmentation.joined_eq {s : List Char} {ps : List (Kind × List Char)}
    (h : Segmentation s ps) : joined ps = s := by
  induction h with
  | nil => rfl
  | cons _ _ ih => rw [joined_cons, ih]

/-- Each piece of a segmentation is what stands behind the pieces before it. -/
theorem Segmentation.piece {s : List Char} {before after : List (Kind × List Char)}
    {k : Kind} {v : List Char} (h : Segmentation s (before ++ (k, v) :: after)) :
    Piece (s.drop (joined before).length) k v := by
  induction before generalizing s with
  | nil =>
    cases h with
    | cons hp _ => exact hp
  | cons q before ih =>
    obtain ⟨k', v'⟩ := q
    cases h with
    | cons _ hm =>
      rw [joined_cons, List.length_append, ← List.drop_drop, List.drop_left]
      exact ih hm

/-- No piece is an end. -/
theorem Piece.kind_ne_eof {r v : List Char} {k : Kind} (h : Piece r k v) : k ≠ .eof := by
  cases h <;> exact Kind.noConfusion

/-- The tokens of a source, by its segmentation. -/
theorem tokenize_eq (source : String) :
    tokenize source = placed .start (Lexer.split source.toList) ++
      [ending (Position.start.advance source.toList)] := by
  have hjoined := (segmentation_iff.2 (Eq.refl (Lexer.split source.toList))).joined_eq
  rw [tokenize, Lexer.tokenize, Lexer.ofText, locate_eq, hjoined]

/-- A token of a source is what the grammar has at its offset, and as long as that. -/
theorem piece_of_mem {source : String} {t : Token}
    (h : t ∈ placed .start (Lexer.split source.toList)) :
    Piece (source.toList.drop t.span.start) t.kind t.value.toList ∧
      t.span.stop = t.span.start + t.value.toList.length := by
  obtain ⟨before, k, v, after, hps, hk, hv, hstart, hstop⟩ := exists_of_mem_placed h
  have hseg := segmentation_iff.2 (Eq.refl (Lexer.split source.toList))
  rw [hps] at hseg
  rw [Position.start, Nat.zero_add] at hstart
  rw [hv, hk, hstop, hstart, String.toList_ofList]
  exact ⟨hseg.piece, rfl⟩

/-- A token of a source carries the characters that its span cuts out. -/
theorem extract_of_mem {source : String} {t : Token}
    (h : t ∈ placed .start (Lexer.split source.toList)) :
    t.span.stop ≤ source.length ∧
      t.value.toList = source.toList.extract t.span.start t.span.stop := by
  obtain ⟨hpiece, hstop⟩ := piece_of_mem h
  have hpre := hpiece.head_eq.2
  have hpos := List.length_pos_iff.2 hpiece.ne_nil
  have hle := hpre.length_le
  rw [List.length_drop] at hle
  constructor
  · rw [← String.length_toList]
    omega
  · rw [List.extract_eq_take_drop, hstop, Nat.add_sub_cancel_left]
    exact List.prefix_iff_eq_take.1 hpre

/-- The values of the tokens, joined, are the characters of the pieces. -/
theorem join_placed (p : Position) (ps : List (Kind × List Char)) :
    (String.join ((placed p ps).map Token.value)).toList = joined ps := by
  induction ps generalizing p with
  | nil => rfl
  | cons q ps ih =>
    obtain ⟨k, v⟩ := q
    rw [placed, List.map_cons, String.join_cons, String.toList_append, ih, String.toList_ofList,
      joined_cons]

/-- A lexer with nothing left to read has only its end, however often it is asked. -/
theorem tokenize_spent (p : Position) (n : Nat) :
    ((fun l : Lexer => l.tokenize.2)^[n] ⟨[], p⟩).tokenize.1 = [ending p] := by
  have hfixed : (fun l : Lexer => l.tokenize.2) ⟨[], p⟩ = ⟨[], p⟩ := rfl
  rw [Function.iterate_fixed hfixed, Lexer.tokenize, Lexer.split]
  rfl

/-- Nowhere in plain text does markup begin. -/
theorem Piece.no_markup {r v : List Char} {k : Kind} (h : Piece r k v) (hk : k = .text)
    {i : Nat} (hi : i < v.length) :
    ¬ OpensColor (r.drop i) ∧ ¬ OpensEmote (r.drop i) ∧ ¬ ['*'] <+: r.drop i := by
  cases h with
  | color => cases hk
  | emote => cases hk
  | style => cases hk
  | text noColor noEmote noStar plain longest =>
    rcases Nat.eq_zero_or_pos i with rfl | hpos
    · exact ⟨noColor, noEmote, noStar⟩
    · have hm := plain.unmarked i hpos hi
      exact ⟨fun opens => hm opens.opensMarker, fun opens => hm opens.opensMarker,
        fun hstar => hm (.inl hstar)⟩

/-! ### What tokenizing returns -/

/-- **Nothing is lost.** For every source tokenizing returns tokens and one end. The
tokens are no ends, carry the characters of the source that their spans cut out, and cover
all of it in order; so their values, joined, are the source. The end stands behind the
last character and is empty.

Read by index, with every slice checked, the source gives the same tokens: none of the
rules reaches outside it, and there are no more tokens than characters. A lexer that was
asked for all its tokens, once or more often, returns its end and nothing else. -/
theorem tokenize_covers (source : String) :
    ∃ (body : List Token) (last : Token), tokenize source = body ++ [last] ∧
      (∀ t ∈ body, t.kind ≠ .eof ∧ t.value ≠ "" ∧ t.span.stop ≤ source.length ∧
        t.value.toList = source.toList.extract t.span.start t.span.stop) ∧
      Contiguous 0 body source.length ∧
      String.join (body.map Token.value) = source ∧
      (last.kind = .eof ∧ last.value = "" ∧
        last.span.start = source.length ∧ last.span.stop = source.length) ∧
      (Cursor.ofText source).tokenize.map (·.1) = .ok (tokenize source) ∧
      body.length ≤ source.length ∧
      ∀ n, ((fun l : Lexer => l.tokenize.2)^[n + 1] (.ofText source)).tokenize.1 = [last] := by
  have hseg := segmentation_iff.2 (Eq.refl (Lexer.split source.toList))
  have hstop : (Position.start.advance source.toList).offset = source.length := by
    rw [Position.advance_offset, String.length_toList]
    exact Nat.zero_add _
  have hcover : Contiguous 0 (placed .start (Lexer.split source.toList)) source.length := by
    have hne : ∀ q ∈ Lexer.split source.toList, q.2 ≠ [] := fun q hq => by
      obtain ⟨before, after, hps⟩ := List.append_of_mem hq
      rw [hps] at hseg
      exact hseg.piece.ne_nil
    have hplaced := contiguous_placed hne .start
    rwa [hseg.joined_eq, String.length_toList, Position.start, Nat.zero_add] at hplaced
  refine ⟨_, _, tokenize_eq source, fun t ht => ?_, hcover, ?_, ⟨rfl, rfl, hstop, hstop⟩, ?_,
    ?_, fun n => tokenize_spent _ n⟩
  · have hpiece := (piece_of_mem ht).1
    refine ⟨hpiece.kind_ne_eof, fun hv => hpiece.ne_nil ?_, extract_of_mem ht⟩
    rw [hv, String.toList_empty]
  · rw [← String.toList_inj, join_placed, hseg.joined_eq]
  · rw [Cursor.tokenize_eq (Nat.zero_le _)]
    rfl
  · have hle := hcover.length_le
    omega

/-- **The grammar decides.** The tokens of a source before its end, by kind and value, are
the only segmentation of it. Each is what the grammar has at its own offset, and nowhere
inside plain text, its first character included, does a known escape, an emote or a star
begin. -/
theorem tokenize_segments (source : String) :
    (∀ pieces, Segmentation source.toList pieces ↔
      pieces = (tokenize source).dropLast.map fun t => (t.kind, t.value.toList)) ∧
    ∀ t ∈ (tokenize source).dropLast,
      Piece (source.toList.drop t.span.start) t.kind t.value.toList ∧
      (t.kind = .text → ∀ i, t.span.start ≤ i → i < t.span.stop →
        ¬ OpensColor (source.toList.drop i) ∧ ¬ OpensEmote (source.toList.drop i) ∧
          ¬ ['*'] <+: source.toList.drop i) := by
  rw [tokenize_eq, List.dropLast_concat]
  refine ⟨fun pieces => by rw [segmentation_iff, map_placed], fun t ht => ?_⟩
  obtain ⟨hpiece, hstop⟩ := piece_of_mem ht
  refine ⟨hpiece, fun hk i hle hlt => ?_⟩
  have hmarkup := hpiece.no_markup hk (i := i - t.span.start) (by omega)
  rwa [List.drop_drop, Nat.add_sub_of_le hle] at hmarkup

end Marquee.Markup
