import Marquee.Toml.Text
import Marquee.Toml.Writer
import Mathlib

/-!
# Written Texts Are Read Back

A text is written in one of four forms, and whichever it is, the reader gets the text from it
and stops behind the closing quotes. With escapes this needs nothing of the text: every
character is written as itself or as an escape for it, and a quote that might be taken for a
closing one is escaped. Without escapes it is the choice of the form that keeps the closing
quotes apart from those of the text.

## Main statements

* `escaped_cons` — how a text between double quotes is written, character by character;
* `basicLines_escaped` — quotes at the end of a text are not taken for closing ones;
* `read_basic`, `read_literal`, `read_basicLines`, `read_literalLines` — the four forms;
* `read_writeText` — what is written for a text is read as that text.
-/

namespace Marquee.Toml.Text

/-! ### Characters -/

/-- Some characters stand for one between double quotes, on one line or on several. -/
inductive Stands (several : Bool) : Char → List Char → Prop
  | plain {c : Char} (plain : isPlain c) (quote : c ≠ '"') (backslash : c ≠ '\\') :
    Stands several c [c]
  | newline (h : several) : Stands several '\n' ['\n']
  | letter {l c : Char} (h : letter? l = some c) : Stands several c ['\\', l]
  | numbered {a b d e c : Char} (h : coded? [a, b, d, e] = some c) :
    Stands several c ['\\', 'u', a, b, d, e]

/-- What stands for a character does not begin with a quote. -/
theorem Stands.exists_cons {several : Bool} {c : Char} {w : List Char} (h : Stands several c w) :
    ∃ d v, w = d :: v ∧ d ≠ '"' := by
  cases h with
  | plain _ quote => exact ⟨_, _, rfl, quote⟩
  | newline => exact ⟨_, _, rfl, by decide⟩
  | letter => exact ⟨_, _, rfl, by decide⟩
  | numbered => exact ⟨_, _, rfl, by decide⟩

/-- What is no more than seven bits is written as four digits, and these are read back. -/
theorem coded?_numbered : ∀ n < 128, ∃ ds, numbered (Char.ofNat n) = '\\' :: 'u' :: ds ∧
    ds.length = 4 ∧ coded? ds = some (Char.ofNat n) := by
  have hread : ∀ n < 128, numbered (Char.ofNat n) =
      '\\' :: 'u' :: (numbered (Char.ofNat n)).drop 2 ∧
      ((numbered (Char.ofNat n)).drop 2).length = 4 ∧
      coded? ((numbered (Char.ofNat n)).drop 2) = some (Char.ofNat n) := by
    decide +kernel
  exact fun n hn => ⟨_, hread n hn⟩

/-- The number of a control stands for it, on one line or several. -/
theorem stands_numbered {c : Char} (h : Form.isControl c) (several : Bool) :
    Stands several c (numbered c) := by
  have hc : c.toNat < 128 := by
    simp only [Form.isControl, Bool.and_eq_true, Bool.or_eq_true, decide_eq_true_eq,
      beq_iff_eq] at h
    omega
  obtain ⟨ds, hnumbered, hlength, hcoded⟩ := coded?_numbered c.toNat hc
  obtain ⟨a, b, d, e, rfl⟩ := List.length_eq_four.1 hlength
  rw [Char.ofNat_toNat] at hnumbered hcoded
  rw [hnumbered]
  exact .numbered hcoded

/-- What is no control and no newline stands for itself. -/
theorem isPlain_of_not_isControl {c : Char} (h : Form.isControl c = false) (newline : c ≠ '\n') :
    isPlain c := by
  simp only [Form.isControl, isPlain, Bool.and_eq_false_iff, Bool.or_eq_false_iff,
    bne_eq_false_iff_eq,
    decide_eq_false_iff_not, beq_eq_false_iff_ne, Bool.or_eq_true, Bool.and_eq_true,
    decide_eq_true_eq, beq_iff_eq, bne_iff_ne] at h ⊢
  rcases h with (rfl | rfl) | ⟨hlow, hdel⟩
  · exact .inl rfl
  · exact absurd rfl newline
  · exact .inr ⟨by omega, hdel⟩

/-- **A text between double quotes** is written character by character. Up to two quotes in a
row stay as they are where newlines do. -/
theorem escaped_cons (several : Bool) (run : ℕ) (c : Char) (s : List Char) :
    (c = '"' ∧ several ∧ run < 2 ∧
      escaped several run (c :: s) = '"' :: escaped several (run + 1) s) ∨
    ∃ w, Stands several c w ∧ escaped several run (c :: s) = w ++ escaped several 0 s := by
  generalize hcs : c :: s = cs
  fun_cases escaped several run cs with
  | case1 => cases hcs
  | case2 s h =>
    cases hcs
    rw [Bool.and_eq_true, decide_eq_true_eq] at h
    exact .inl ⟨rfl, h.1, h.2, rfl⟩
  | case4 s h =>
    cases hcs
    exact .inr ⟨['\n'], .newline h, rfl⟩
  | case3 | case5 | case6 | case7 | case8 | case9 | case10 =>
    cases hcs
    exact .inr ⟨_, .letter rfl, rfl⟩
  | case11 c s quote newline backslash =>
    cases hcs
    refine .inr ⟨_, ?_, rfl⟩
    split
    next h => exact stands_numbered h several
    next h =>
      exact .plain (isPlain_of_not_isControl (Bool.eq_false_iff.2 h) newline) quote backslash

/-! ### Texts with escapes -/

/-- What stands for a character is read as it, on one line. -/
theorem basic_append {c : Char} {w : List Char} (h : Stands false c w) (s : List Char) :
    basic (w ++ s) = push (some c) (basic s) := by
  cases h with
  | plain plain quote backslash =>
    rw [List.singleton_append, basic, if_pos plain]
    · exact quote
    · exact backslash
  | newline h => cases h
  | @letter l _ h =>
    rw [← h]
    unfold letter? at h
    split at h
    all_goals first | rfl | cases h
  | numbered h =>
    rw [← h]
    rfl

/-- **A text with escapes** on one line. -/
theorem basic_escaped (s rest : List Char) :
    basic (escaped false 0 s ++ '"' :: rest) = some (s, rest) := by
  induction s with
  | nil => rfl
  | cons c s ih =>
    obtain ⟨-, h, -⟩ | ⟨w, stands, hw⟩ := escaped_cons false 0 c s
    · cases h
    · rw [hw, List.append_assoc, basic_append stands, ih]
      rfl

/-- What stands for a character is read as it, on several lines. -/
theorem basicLines_append {c : Char} {w : List Char} (h : Stands true c w) (s : List Char) :
    basicLines false (w ++ s) = push (some c) (basicLines false s) := by
  cases h with
  | plain plain quote backslash =>
    have hplain : isPlainIn c s := by simp [isPlainIn, plain]
    rw [List.singleton_append, basicLines, hplain]
    · rfl
    · exact fun _ h => absurd h quote
    · exact backslash
  | newline h => rfl
  | @letter l _ h =>
    rw [← h]
    unfold letter? at h
    split at h
    all_goals first | rfl | cases h
  | numbered h =>
    rw [← h]
    rfl

/-- A quote that two others do not follow is taken as it is. -/
theorem basicLines_quote {s : List Char} (h : ∀ u, s ≠ '"' :: '"' :: u) :
    basicLines false ('"' :: s) = push (some '"') (basicLines false s) := by
  rw [basicLines]
  · rfl
  · exact fun u _ hu => h u hu
  · decide

/-- Quotes before the closing ones belong to the text. -/
theorem closing_quotes {q : Char} {rest : List Char} (hrest : rest.head? ≠ some q) :
    closing q rest = ([], rest) ∧ closing q (q :: rest) = ([q], rest) ∧
      closing q (q :: q :: rest) = ([q, q], rest) := by
  rcases rest with _ | ⟨a, _ | ⟨b, rest⟩⟩
  · simp [closing]
  · have ha : a ≠ q := fun h => hrest (congrArg some h)
    simp [closing, ha]
  · have ha : a ≠ q := fun h => hrest (congrArg some h)
    simp [closing, ha]

/-- **A text with escapes** on several lines. At its end quotes are left to the closing ones;
before that no three come together. -/
theorem basicLines_escaped (run : ℕ) (s : List Char) {rest : List Char}
    (hrest : rest.head? ≠ some '"') :
    basicLines false (escaped true run s ++ '"' :: '"' :: '"' :: rest) = some (s, rest) := by
  obtain ⟨hnone, hone, htwo⟩ := closing_quotes hrest
  induction s generalizing run with
  | nil => exact congrArg some hnone
  | cons c s ih =>
    obtain ⟨rfl, -, hrun, h⟩ | ⟨w, stands, hw⟩ := escaped_cons true run c s
    · have htext := ih (run + 1)
      rw [h, List.cons_append]
      rcases s with _ | ⟨d, s⟩
      · exact congrArg some hone
      obtain ⟨rfl, -, hrun', h'⟩ | ⟨w, stands, hw⟩ := escaped_cons true (run + 1) d s
      · rcases s with _ | ⟨e, s⟩
        · rw [h']
          exact congrArg some htwo
        · obtain ⟨-, -, hrun'', -⟩ | ⟨w, stands, hw⟩ := escaped_cons true (run + 1 + 1) e s
          · omega
          obtain ⟨f, v, rfl, hf⟩ := stands.exists_cons
          rw [basicLines_quote, htext]
          · rfl
          · rw [h', hw]
            intro u hu
            simp only [List.cons_append, List.cons.injEq] at hu
            exact hf hu.2.1
      · obtain ⟨f, v, rfl, hf⟩ := stands.exists_cons
        rw [basicLines_quote, htext]
        · rfl
        · rw [hw]
          intro u hu
          simp only [List.cons_append, List.cons.injEq] at hu
          exact hf hu.1
    · rw [hw, List.append_assoc, basicLines_append stands, ih]
      rfl

/-! ### Texts without escapes -/

/-- **A text without escapes** on one line. -/
theorem literal_append {s : List Char} (hs : ∀ c ∈ s, isPlain c ∧ c ≠ '\'') (rest : List Char) :
    literal (s ++ '\'' :: rest) = some (s, rest) := by
  induction s with
  | nil => rfl
  | cons c s ih =>
    obtain ⟨⟨hplain, hquote⟩, hs⟩ := List.forall_mem_cons.1 hs
    rw [List.cons_append, literal, if_pos hplain, ih hs]
    · rfl
    · exact hquote

/-- A plain character or a newline may stand between three quotes. -/
theorem isPlainIn_of {c : Char} (h : isPlain c ∨ c = '\n') (s : List Char) : isPlainIn c s := by
  rcases h with h | rfl
  · simp [isPlainIn, h]
  · rfl

/-- **A text without escapes** on several lines, as long as no three quotes come together. Unless
only quotes are left, the next three characters are no closing quotes then. -/
theorem literalLines_append {s : List Char} (hs : ∀ c ∈ s, isPlain c ∨ c = '\n')
    (htripled : Form.tripled '\'' s = false) {rest : List Char} (hrest : rest.head? ≠ some '\'') :
    literalLines (s ++ '\'' :: '\'' :: '\'' :: rest) = some (s, rest) := by
  obtain ⟨hnone, hone, htwo⟩ := closing_quotes hrest
  induction s with
  | nil => exact congrArg some hnone
  | cons c s ih =>
    obtain ⟨hc, hs⟩ := List.forall_mem_cons.1 hs
    by_cases hend : c = '\'' ∧ (s = [] ∨ s = ['\''])
    · obtain ⟨rfl, rfl | rfl⟩ := hend
      · exact congrArg some hone
      · exact congrArg some htwo
    · have htail : Form.tripled '\'' s = false := by
        rcases s with _ | ⟨d, _ | ⟨e, s⟩⟩
        · rfl
        · rfl
        · rw [Form.tripled, Bool.or_eq_false_iff] at htripled
          exact htripled.2
      rw [List.cons_append, literalLines, if_pos (isPlainIn_of hc _), ih hs htail]
      · rfl
      · rintro u rfl hu
        refine hend ⟨rfl, ?_⟩
        rcases s with _ | ⟨d, _ | ⟨e, s⟩⟩
        · exact .inl rfl
        · cases hu
          exact .inr rfl
        · cases hu
          cases htripled

/-! ### The choice of the form -/

/-- Without a control a text is made of plain characters and newlines. -/
theorem plain_of_any {s : List Char} (h : s.any Form.isControl ≠ true) :
    ∀ c ∈ s, isPlain c ∨ c = '\n' := by
  intro c hc
  rcases eq_or_ne c '\n' with rfl | newline
  · exact .inr rfl
  · refine .inl (isPlain_of_not_isControl (Bool.eq_false_iff.2 fun hcontrol => h ?_) newline)
    exact List.any_eq_true.2 ⟨c, hc, hcontrol⟩

/-- A text that goes between single quotes on one line. -/
theorem of_eq_literal {s : List Char} (h : Form.of s = .literal) :
    ∀ c ∈ s, isPlain c ∧ c ≠ '\'' := by
  dsimp only [Form.of] at h
  split_ifs at h with hcontrol hlines hbasic hliteral
  simp only [Bool.and_eq_true, Bool.not_eq_true', List.contains_eq_mem, decide_eq_false_iff_not]
    at hliteral
  intro c hc
  refine ⟨(plain_of_any hcontrol c hc).resolve_right fun h => hliteral.1 (h ▸ hc), ?_⟩
  exact fun h => hliteral.2 (h ▸ hc)

/-- A text that goes between single quotes on several lines. -/
theorem of_eq_literalLines {s : List Char} (h : Form.of s = .literalLines) :
    (∀ c ∈ s, isPlain c ∨ c = '\n') ∧ Form.tripled '\'' s = false := by
  dsimp only [Form.of] at h
  split_ifs at h with hcontrol hlines hbasic hliteral hquotes htripled
  exact ⟨plain_of_any hcontrol, by simpa using htripled⟩

/-! ### Texts of any form -/

/-- The newline that is written in front of a text with newlines is dropped, and no other. -/
theorem afterNewline_body {s body : List Char} (hbody : '\n' ∉ s → newline? body = none) :
    afterNewline ((if s.contains '\n' then ['\n'] else []) ++ body) = body := by
  rw [afterNewline]
  by_cases h : '\n' ∈ s
  · rw [if_pos (List.contains_iff_mem.2 h)]
    rfl
  · rw [if_neg (mt List.contains_iff_mem.1 h), List.nil_append, hbody h]
    rfl

/-- What begins with neither a newline nor a return has no newline to drop. -/
theorem newline?_cons {c : Char} {s : List Char} (newline : c ≠ '\n') (back : c ≠ '\r') :
    newline? (c :: s) = none := by
  rw [newline?]
  · exact fun _ h => newline (List.cons.inj h).1
  · exact fun _ h => back (List.cons.inj h).1

/-- A text without newlines, in escapes, begins with none. -/
theorem newline?_escaped {s rest : List Char} (h : '\n' ∉ s) :
    newline? (escaped true 0 s ++ '"' :: rest) = none := by
  rcases s with _ | ⟨c, s⟩
  · rfl
  obtain ⟨-, -, -, hc⟩ | ⟨w, stands, hw⟩ := escaped_cons true 0 c s
  · rw [hc]
    rfl
  · rw [hw]
    cases stands with
    | plain plain =>
      refine newline?_cons (fun hc => h (hc ▸ List.mem_cons_self)) ?_
      rintro rfl
      cases plain
    | newline => exact absurd List.mem_cons_self h
    | letter => rfl
    | numbered => rfl

/-- With escapes, on one line. Unless the text is empty, its first character is not written with a
quote, so the two quotes in front are not the beginning of three. -/
theorem read_basic (s : List Char) {rest : List Char} (hrest : rest.head? ≠ some '"') :
    read ('"' :: (escaped false 0 s ++ '"' :: rest)) = some (s, rest) := by
  have hopen : ∀ u, escaped false 0 s ++ '"' :: rest ≠ '"' :: '"' :: u := by
    intro u hu
    rcases s with _ | ⟨c, s⟩
    · exact hrest (congrArg List.head? (List.cons.inj hu).2)
    obtain ⟨-, h, -⟩ | ⟨w, stands, hw⟩ := escaped_cons false 0 c s
    · cases h
    · obtain ⟨d, v, rfl, hd⟩ := stands.exists_cons
      rw [hw] at hu
      exact hd (List.cons.inj hu).1
  rw [read]
  · exact basic_escaped s rest
  · exact fun u hu => hopen u hu

/-- Without escapes, on one line. -/
theorem read_literal {s rest : List Char} (hs : ∀ c ∈ s, isPlain c ∧ c ≠ '\'')
    (hrest : rest.head? ≠ some '\'') : read ('\'' :: (s ++ '\'' :: rest)) = some (s, rest) := by
  have hopen : ∀ u, s ++ '\'' :: rest ≠ '\'' :: '\'' :: u := by
    intro u hu
    rcases s with _ | ⟨c, s⟩
    · exact hrest (congrArg List.head? (List.cons.inj hu).2)
    · exact (hs c List.mem_cons_self).2 (List.cons.inj hu).1
  rw [read]
  · exact literal_append hs rest
  · exact fun u hu => hopen u hu

/-- With escapes, on several lines. -/
theorem read_basicLines (s : List Char) {rest : List Char} (hrest : rest.head? ≠ some '"') :
    read ('"' :: '"' :: '"' :: ((if s.contains '\n' then ['\n'] else []) ++
      (escaped true 0 s ++ '"' :: '"' :: '"' :: rest))) = some (s, rest) := by
  rw [read, afterNewline_body fun h => newline?_escaped h]
  exact basicLines_escaped 0 s hrest

/-- Without escapes, on several lines. -/
theorem read_literalLines {s rest : List Char} (hs : ∀ c ∈ s, isPlain c ∨ c = '\n')
    (htripled : Form.tripled '\'' s = false) (hrest : rest.head? ≠ some '\'') :
    read ('\'' :: '\'' :: '\'' :: ((if s.contains '\n' then ['\n'] else []) ++
      (s ++ '\'' :: '\'' :: '\'' :: rest))) = some (s, rest) := by
  have hbody (h : '\n' ∉ s) : newline? (s ++ '\'' :: '\'' :: '\'' :: rest) = none := by
    rcases s with _ | ⟨c, s⟩
    · rfl
    · refine newline?_cons (fun hc => h (hc ▸ List.mem_cons_self)) ?_
      rintro rfl
      exact (hs '\r' List.mem_cons_self).elim (by decide) (by decide)
  rw [read, afterNewline_body hbody]
  exact literalLines_append hs htripled hrest

/-- **What is written for a text** is read as that text, up to the end of the line. -/
theorem read_writeText (t : String) (rest : List Char) :
    read ((writeText t).toList ++ '\n' :: rest) = some (t.toList, '\n' :: rest) := by
  rw [writeText, String.toList_ofList]
  generalize t.toList = s
  have hbasic : ('\n' :: rest).head? ≠ some '"' := by simp
  have hliteral : ('\n' :: rest).head? ≠ some '\'' := by simp
  cases hform : Form.of s with
  | basic =>
    simp only [List.append_assoc]
    exact read_basic s hbasic
  | literal =>
    simp only [List.append_assoc]
    exact read_literal (of_eq_literal hform) hliteral
  | basicLines =>
    simp only [List.append_assoc]
    exact read_basicLines s hbasic
  | literalLines =>
    obtain ⟨hs, htripled⟩ := of_eq_literalLines hform
    simp only [List.append_assoc]
    exact read_literalLines hs htripled hliteral

end Marquee.Toml.Text
