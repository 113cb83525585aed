import Marquee.Markup.Escape
import Marquee.Markup.Token

/-!
# Splitting Markup into Tokens

Four rules are tried in order at every place of the source: a known color escape, an
emote, a run of stars, and text. The first three may decline; text never does, so the
splitting always moves on and no markup is malformed.

* **Escape**: the characters up to the first terminator are looked up in the table.
* **Emote**: the characters up to the next colon must be digits, at least one.
* **Stars**: at most three are taken.
* **Text**: the character at hand, whatever it is, and all that follow up to the next
  place where a marker may begin.

The rules work on characters alone (`Lexer.split`); places are added afterwards
(`Lexer.locate`).

## Main statements

* `Lexer.head_length_pos` — every rule takes at least one character;
* `Lexer.flatten_split` — the pieces, joined, are the source.
-/

namespace Marquee.Markup

/-- A source being split: the characters not yet taken, and the place reached. -/
structure Lexer where
  rest : List Char
  position : Position

namespace Lexer

/-! ### The rules -/

/-- Whether the source goes on with the characters that introduce an escape. -/
def atEscape (s : List Char) : Bool :=
  Escape.intro.isPrefixOf s

/-- Whether a marker may begin here. -/
def atMarker (s : List Char) : Bool :=
  s.head? == some '*' || s.head? == some ':' || atEscape s

/-- A known color escape. An unclosed or unknown one is none. -/
def color? (s : List Char) : Option (Kind × Nat) :=
  if atEscape s then
    let body := s.takeWhile (· != Escape.terminator)
    if body.length < s.length then
      (Escape.color? (String.ofList (body ++ [Escape.terminator]))).map
        fun name => (.color name, body.length + 1)
    else none
  else none

/-- An emote: digits between two colons. -/
def emote? : List Char → Option (Kind × Nat)
  | ':' :: r =>
    let id := r.takeWhile (· != ':')
    if id.length < r.length && !id.isEmpty && id.all Char.isDigit then
      some (.emote (String.ofList id), id.length + 2)
    else none
  | _ => none

/-- A run of at most three stars. -/
def style? (s : List Char) : Option (Kind × Nat) :=
  let stars := (s.take 3).takeWhile (· == '*')
  (Style.ofMarkerLength? stars.length).map fun style => (.style style, stars.length)

/-- How many characters pass before a marker may begin. -/
def plainLength : List Char → Nat
  | [] => 0
  | c :: r => if atMarker (c :: r) then 0 else plainLength r + 1

/-- The character at hand and the plain ones after it. -/
def text (s : List Char) : Kind × Nat :=
  (.text, plainLength s.tail + 1)

/-- What begins here, and how many characters it takes. -/
def head (s : List Char) : Kind × Nat :=
  (color? s <|> emote? s <|> style? s).getD (text s)

/-- A color escape takes up characters. -/
theorem color?_length_pos {s : List Char} {h : Kind × Nat} (e : color? s = some h) :
    0 < h.2 := by
  unfold color? at e
  split at e
  · dsimp only at e
    split at e
    · obtain ⟨name, -, rfl⟩ := Option.map_eq_some_iff.1 e
      exact Nat.succ_pos _
    · cases e
  · cases e

/-- An emote takes up characters. -/
theorem emote?_length_pos {s : List Char} {h : Kind × Nat} (e : emote? s = some h) :
    0 < h.2 := by
  unfold emote? at e
  split at e
  · dsimp only at e
    split at e
    · cases e
      exact Nat.succ_pos _
    · cases e
  · cases e

/-- A style marker takes up characters. -/
theorem style?_length_pos {s : List Char} {h : Kind × Nat} (e : style? s = some h) :
    0 < h.2 := by
  obtain ⟨style, hs, rfl⟩ := Option.map_eq_some_iff.1 e
  exact Nat.pos_of_ne_zero (Style.ofMarkerLength?_eq_some_iff.1 hs).2

/-- Every token takes up characters, so splitting comes to an end. -/
theorem head_length_pos (s : List Char) : 0 < (head s).2 := by
  unfold head
  cases hc : color? s with
  | some h => exact color?_length_pos hc
  | none =>
    cases he : emote? s with
    | some h => exact emote?_length_pos he
    | none =>
      cases hs : style? s with
      | some h => exact style?_length_pos hs
      | none => exact Nat.succ_pos _

/-! ### The splitting -/

/-- The source cut into pieces, each with what it means. -/
def split (s : List Char) : List (Kind × List Char) :=
  match s with
  | [] => []
  | c :: r =>
    ((head (c :: r)).1, (c :: r).take (head (c :: r)).2) ::
      split ((c :: r).drop (head (c :: r)).2)
termination_by s.length
decreasing_by
  have := head_length_pos (c :: r)
  simp only [List.length_drop, List.length_cons]
  omega

/-- The values of the tokens, one after the other, are the text. -/
theorem flatten_split (s : List Char) : ((split s).map (·.2)).flatten = s := by
  fun_induction split s with
  | case1 => rfl
  | case2 c r ih => simp [ih]

/-- The pieces as tokens, each at its place, and the end after them. -/
def locate (p : Position) : List (Kind × List Char) → List Token
  | [] => [⟨.eof, "", .between p p⟩]
  | (kind, cs) :: more =>
    ⟨kind, String.ofList cs, .between p (p.advance cs)⟩ :: locate (p.advance cs) more

/-- A lexer at the start of a source. -/
def ofText (source : String) : Lexer :=
  ⟨source.toList, .start⟩

/-- All remaining tokens, the end last, and the lexer with nothing left. -/
def tokenize (l : Lexer) : List Token × Lexer :=
  (locate l.position (split l.rest), ⟨[], l.position.advance l.rest⟩)

end Lexer

/-- The tokens of a source, the end last. -/
def tokenize (source : String) : List Token :=
  (Lexer.ofText source).tokenize.1

end Marquee.Markup
