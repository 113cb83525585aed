import Marquee.Proofs.Markup.Grammar

/-!
# Reading a Source by Index

`Lexer` hands the rest of the source from rule to rule, so it has nothing to go out of
bounds with. This module reads the same source the way a machine does: a cursor holds the
whole source and the place reached, and the rules take slices of it by index. A slice
that does not lie in the source is an `Overrun`, which stops the reading; so is a token
that would be longer than what is left. Single characters are asked for one at a time and
may be missing.

## Main statements

* `Cursor.next_progress` — a token that is read moves the cursor on, inside the source;
* `Cursor.tokenize_eq` — a cursor inside its source never overruns it, and reads what the
  lexer of the rest reads.
-/

namespace Marquee.Markup

/-- The range of a slice that does not lie in the source. -/
structure Overrun where
  start : Nat
  stop : Nat
deriving DecidableEq

/-- A source, and the place reached in it. -/
structure Cursor where
  source : List Char
  place : Position

namespace Cursor

/-! ### The rules by index -/

/-- The characters from one index up to another. -/
def slice (c : Cursor) (start stop : Nat) : Except Overrun (List Char) :=
  if start ≤ stop ∧ stop ≤ c.source.length then .ok (c.source.extract start stop)
  else .error ⟨start, stop⟩

/-- Whether the characters that introduce an escape stand at an index. -/
def atEscape (c : Cursor) (i : Nat) : Bool :=
  Escape.intro.zipIdx.all fun (x, k) => c.source[i + k]? == some x

/-- Whether a marker may begin at an index. -/
def atMarker (c : Cursor) (i : Nat) : Bool :=
  c.source[i]? == some '*' || c.source[i]? == some ':' || c.atEscape i

/-- A known color escape: everything up to the next terminator is looked up. -/
def color? (c : Cursor) : Except Overrun (Option (Kind × Nat)) :=
  if c.atEscape c.place.offset then do
    let rest ← c.slice c.place.offset c.source.length
    match rest.findIdx? (· == Escape.terminator) with
    | some k =>
      let sequence ← c.slice c.place.offset (c.place.offset + k + 1)
      pure ((Escape.color? (String.ofList sequence)).map fun name => (.color name, k + 1))
    | none => pure none
  else pure none

/-- An emote: everything up to the next colon must be digits. -/
def emote? (c : Cursor) : Except Overrun (Option (Kind × Nat)) :=
  if c.source[c.place.offset]? == some ':' then do
    let rest ← c.slice (c.place.offset + 1) c.source.length
    match rest.findIdx? (· == ':') with
    | some k =>
      let id ← c.slice (c.place.offset + 1) (c.place.offset + 1 + k)
      pure (if !id.isEmpty && id.all Char.isDigit then
        some (.emote (String.ofList id), k + 2) else none)
    | none => pure none
  else pure none

/-- A run of at most three stars. -/
def style? (c : Cursor) : Except Overrun (Option (Kind × Nat)) := do
  let rest ← c.slice c.place.offset c.source.length
  let stars := (rest.take 3).takeWhile (· == '*')
  pure ((Style.ofMarkerLength? stars.length).map fun style => (.style style, stars.length))

/-- The character at hand and all up to the next index where a marker may begin. -/
def text (c : Cursor) : Kind × Nat :=
  let behind := List.range' (c.place.offset + 1) (c.source.length - (c.place.offset + 1))
  (.text, (behind.takeWhile fun i => !c.atMarker i).length + 1)

/-- What begins at the cursor, and how many characters it takes. -/
def head (c : Cursor) : Except Overrun (Kind × Nat) := do
  if let some p ← c.color? then return p
  if let some p ← c.emote? then return p
  if let some p ← c.style? then return p
  return c.text

/-- The next token and the cursor behind it; nothing at the end of the source. -/
def next (c : Cursor) : Except Overrun (Option (Token × Cursor)) :=
  if c.place.offset < c.source.length then do
    let (kind, n) ← c.head
    let cs ← c.slice c.place.offset (c.place.offset + n)
    let place := c.place.advance cs
    pure (some (⟨kind, String.ofList cs, .between c.place place⟩, { c with place }))
  else pure none

/-! ### In bounds -/

/-- So many characters from an index on are a slice, if there are as many. -/
theorem slice_add {c : Cursor} {i n : Nat} (h : i + n ≤ c.source.length) :
    c.slice i (i + n) = .ok ((c.source.drop i).take n) := by
  rw [slice, if_pos ⟨Nat.le_add_right i n, h⟩, List.extract_eq_take_drop, Nat.add_sub_cancel_left]

/-- All characters from an index on are a slice. -/
theorem slice_rest {c : Cursor} {i : Nat} (h : i ≤ c.source.length) :
    c.slice i c.source.length = .ok (c.source.drop i) := by
  rw [slice, if_pos ⟨h, Nat.le_refl _⟩, List.extract_eq_take_drop,
    List.take_of_length_le (by rw [List.length_drop])]

/-- An escape is looked for by index as it is in what is left. -/
theorem atEscape_eq (c : Cursor) (i : Nat) :
    c.atEscape i = Lexer.atEscape (c.source.drop i) := by
  simp only [atEscape, Lexer.atEscape, ← List.getElem?_drop, Escape.intro]
  rcases c.source.drop i with _ | ⟨x, _ | ⟨y, t⟩⟩
  · rfl
  · simp [List.isPrefixOf]
  · simp [List.isPrefixOf, Bool.beq_comm]

/-- Markup is looked for by index as it is in what is left. -/
theorem atMarker_eq (c : Cursor) (i : Nat) :
    c.atMarker i = Lexer.atMarker (c.source.drop i) := by
  rw [atMarker, Lexer.atMarker, atEscape_eq, List.head?_drop]

/-- The index of the first `x` is the length of what stands before it. -/
theorem findIdx?_eq (x : Char) (s : List Char) :
    s.findIdx? (· == x) =
      if (s.takeWhile (· != x)).length < s.length then some (s.takeWhile (· != x)).length
      else none := by
  induction s with
  | nil => rfl
  | cons y s ih =>
    by_cases hy : y = x
    · simp [List.findIdx?_cons, hy]
    · rw [List.findIdx?_cons, List.takeWhile_cons_of_pos (by simpa using hy), ih]
      simp only [beq_iff_eq, hy, if_false, List.length_cons, Nat.add_lt_add_iff_right]
      split <;> rfl

/-- Cutting a slice behind the first `x` stays inside the source. -/
theorem slice_cut {c : Cursor} {i : Nat} {x : Char} (h : i ≤ c.source.length)
    (hx : ((c.source.drop i).takeWhile (· != x)).length < (c.source.drop i).length) :
    c.slice i (i + ((c.source.drop i).takeWhile (· != x)).length + 1) =
      .ok ((c.source.drop i).takeWhile (· != x) ++ [x]) := by
  have hpre := List.prefix_iff_eq_take.1 (takeWhile_ne_iff.1 ⟨rfl, hx⟩).2
  rw [List.length_append, List.length_singleton] at hpre
  rw [List.length_drop] at hx
  rw [Nat.add_assoc, slice_add (by omega), ← hpre]

/-- Plain characters are counted by index as they are in what is left. -/
theorem tail_text_eq (c : Cursor) (i : Nat) :
    ((List.range' i (c.source.length - i)).takeWhile fun k => !c.atMarker k).length =
      Lexer.plainLength (c.source.drop i) := by
  induction hn : c.source.length - i generalizing i with
  | zero => rw [List.drop_of_length_le (by omega)]; rfl
  | succ n ih =>
    rw [List.range'_succ, List.takeWhile_cons, List.drop_eq_getElem_cons (by omega),
      Lexer.plainLength, ← List.drop_eq_getElem_cons, ← atMarker_eq, ← ih (i + 1) (by omega)]
    cases c.atMarker i <;> rfl

/-- A text is found by index as it is in what is left. -/
theorem text_eq (c : Cursor) : c.text = Lexer.text (c.source.drop c.place.offset) := by
  rw [text, Lexer.text, List.tail_drop, tail_text_eq]

section

variable {c : Cursor} (h : c.place.offset ≤ c.source.length)

include h

/-- So is a color escape, and no index is out of range. -/
theorem color?_eq : c.color? = .ok (Lexer.color? (c.source.drop c.place.offset)) := by
  rw [color?, Lexer.color?, atEscape_eq, slice_rest h]
  split
  · dsimp only [bind, Except.bind]
    rw [findIdx?_eq]
    by_cases hlt : ((c.source.drop c.place.offset).takeWhile (· != Escape.terminator)).length <
        (c.source.drop c.place.offset).length
    · simp only [if_pos hlt, slice_cut h hlt]
      rfl
    · simp only [if_neg hlt]
      rfl
  · rfl

/-- So is an emote, and no index is out of range. -/
theorem emote?_eq : c.emote? = .ok (Lexer.emote? (c.source.drop c.place.offset)) := by
  rw [emote?, ← List.head?_drop]
  rcases hs : c.source.drop c.place.offset with _ | ⟨x, r⟩
  · rfl
  by_cases hx : x = ':'
  · subst hx
    have hr : c.source.drop (c.place.offset + 1) = r := by
      rw [← List.tail_drop, hs, List.tail_cons]
    have hle : c.place.offset + 1 ≤ c.source.length := by
      have hlen := congrArg List.length hs
      rw [List.length_drop, List.length_cons] at hlen
      omega
    have hat : ((':' :: r).head? == some ':') = true := rfl
    rw [if_pos hat, slice_rest hle, hr, Lexer.emote?]
    dsimp only [bind, Except.bind]
    rw [findIdx?_eq]
    by_cases hlt : (r.takeWhile (· != ':')).length < r.length
    · have hslice : c.slice (c.place.offset + 1) (c.place.offset + 1 +
          (r.takeWhile (· != ':')).length) = .ok (r.takeWhile (· != ':')) := by
        have hfit := congrArg List.length hr
        rw [List.length_drop] at hfit
        rw [slice_add (by omega), hr]
        exact congrArg _ (List.prefix_iff_eq_take.1 (List.takeWhile_prefix _)).symm
      simp only [if_pos hlt, hslice, decide_eq_true hlt, Bool.true_and]
      rfl
    · simp only [if_neg hlt, decide_eq_false hlt, Bool.false_and]
      rfl
  · have hsome : ((x :: r).head? == some ':') = false := by simpa using hx
    rw [hsome, if_neg (by simp), Lexer.emote?.eq_2 _ (by simpa using hx)]
    rfl

/-- So is a style marker, and no index is out of range. -/
theorem style?_eq : c.style? = .ok (Lexer.style? (c.source.drop c.place.offset)) := by
  rw [style?, slice_rest h]
  rfl

/-- So is whatever comes first, and no index is out of range. -/
theorem head_eq : c.head = .ok (Lexer.head (c.source.drop c.place.offset)) := by
  rw [head, Lexer.head, color?_eq h, emote?_eq h, style?_eq h, text_eq]
  dsimp only [bind, Except.bind]
  rcases Lexer.color? (c.source.drop c.place.offset) with _ | p
  · rcases Lexer.emote? (c.source.drop c.place.offset) with _ | p
    · rcases Lexer.style? (c.source.drop c.place.offset) with _ | p <;> rfl
    · rfl
  · rfl

end

/-- The lexer finds nothing in the rest that reaches outside the source. -/
theorem head_fits {c : Cursor} (h : c.place.offset < c.source.length) :
    c.place.offset + (Lexer.head (c.source.drop c.place.offset)).2 ≤ c.source.length := by
  have hlen : (c.source.drop c.place.offset).length = c.source.length - c.place.offset :=
    List.length_drop
  have hle := head_length_le (List.ne_nil_of_length_pos (by omega) :
    c.source.drop c.place.offset ≠ [])
  omega

/-- Before the end a token is read, the one that the lexer finds in the rest. -/
theorem next_of_lt {c : Cursor} (h : c.place.offset < c.source.length) :
    c.next =
      let rest := c.source.drop c.place.offset
      let cs := rest.take (Lexer.head rest).2
      let place := c.place.advance cs
      .ok (some (⟨(Lexer.head rest).1, String.ofList cs, .between c.place place⟩,
        { c with place })) := by
  rw [next, if_pos h, head_eq h.le]
  dsimp only [bind, Except.bind]
  rw [slice_add (head_fits h)]
  rfl

/-- Behind the last character there is no further token. -/
theorem next_of_le {c : Cursor} (h : c.source.length ≤ c.place.offset) :
    c.next = .ok none := by
  rw [next, if_neg (Nat.not_lt.2 h)]
  rfl

/-- A token that is read moves the cursor on, inside the source. -/
theorem next_progress {c d : Cursor} {t : Token} (h : c.next = .ok (some (t, d))) :
    d.source = c.source ∧ c.place.offset < d.place.offset ∧
      d.place.offset ≤ c.source.length := by
  by_cases hlt : c.place.offset < c.source.length
  · rw [next_of_lt hlt] at h
    obtain ⟨-, rfl⟩ := Prod.mk.inj (Option.some.inj (Except.ok.inj h))
    have hfits := head_fits hlt
    have hpos := Lexer.head_length_pos (c.source.drop c.place.offset)
    refine ⟨rfl, ?_, ?_⟩
    all_goals
      rw [Position.advance_offset, List.length_take, List.length_drop]
      omega
  · rw [next_of_le (Nat.not_lt.1 hlt)] at h
    cases h

/-! ### All tokens -/

/-- All remaining tokens, the end last, and the cursor there. -/
def tokenize (c : Cursor) : Except Overrun (List Token × Cursor) :=
  match _h : c.next with
  | .error e => .error e
  | .ok none => .ok ([⟨.eof, "", .between c.place c.place⟩], c)
  | .ok (some (t, d)) => (tokenize d).map fun (ts, last) => (t :: ts, last)
termination_by c.source.length - c.place.offset
decreasing_by
  obtain ⟨hsource, hlt, hle⟩ := next_progress ‹_›
  rw [hsource]
  omega

/-- A cursor at the start of a source. -/
def ofText (source : String) : Cursor := ⟨source.toList, .start⟩

/-- A cursor inside its source never overruns it. It reads the tokens that the lexer of
the rest reads, and ends where that one ends. -/
theorem tokenize_eq {c : Cursor} (h : c.place.offset ≤ c.source.length) :
    c.tokenize = .ok ((Lexer.tokenize ⟨c.source.drop c.place.offset, c.place⟩).1,
      { c with place := c.place.advance (c.source.drop c.place.offset) }) := by
  fun_induction tokenize c with
  | case1 c e hnext =>
    by_cases hlt : c.place.offset < c.source.length
    · rw [next_of_lt hlt] at hnext
      cases hnext
    · rw [next_of_le (Nat.not_lt.1 hlt)] at hnext
      cases hnext
  | case2 c hnext =>
    have hend : c.source.drop c.place.offset = [] := by
      by_contra hne
      rw [List.drop_eq_nil_iff, not_le] at hne
      rw [next_of_lt hne] at hnext
      cases hnext
    rw [hend, Lexer.tokenize, Lexer.split]
    rfl
  | case3 c t d hnext ih =>
    have hlt : c.place.offset < c.source.length := by
      by_contra hge
      rw [next_of_le (Nat.not_lt.1 hge)] at hnext
      cases hnext
    obtain ⟨hsource, -, hle⟩ := next_progress hnext
    rw [ih (by rwa [hsource])]
    rw [next_of_lt hlt] at hnext
    obtain ⟨rfl, rfl⟩ := Prod.mk.inj (Option.some.inj (Except.ok.inj hnext))
    have hne : c.source.drop c.place.offset ≠ [] := by
      rwa [Ne, List.drop_eq_nil_iff, not_le]
    set s := c.source.drop c.place.offset with hs
    have hrest : c.source.drop (c.place.advance (s.take (Lexer.head s).2)).offset =
        s.drop (Lexer.head s).2 := by
      rw [Position.advance_offset, List.length_take_of_le (head_length_le hne), hs,
        List.drop_drop]
    dsimp only [Except.map, Lexer.tokenize]
    rw [hrest, split_of_ne_nil hne, Lexer.locate, ← Position.advance_append,
      List.take_append_drop]

end Cursor

end Marquee.Markup
