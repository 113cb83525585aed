import Marquee.Style

/-!
# Tokens

A token is a piece of the source with the place it was cut from. Offsets, lines and
columns count characters; offsets start at zero, lines and columns at one.

## Main statements

* `Position.advance_append` — passing over two pieces in turn is passing over the whole;
* `Position.advance_offset` — the offset grows by the number of characters passed over.
-/

namespace Marquee.Markup

/-- A place between two characters of the source. -/
structure Position where
  offset : Nat
  line : Nat
  column : Nat
deriving DecidableEq

namespace Position

/-- The place before the first character. -/
def start : Position := ⟨0, 1, 1⟩

/-- The place after one more character; a newline opens the next line. -/
def step (p : Position) (c : Char) : Position :=
  if c = '\n' then ⟨p.offset + 1, p.line + 1, 1⟩ else ⟨p.offset + 1, p.line, p.column + 1⟩

/-- The place after some more characters. -/
def advance (p : Position) (cs : List Char) : Position :=
  cs.foldl step p

/-- No characters lead nowhere. -/
@[simp]
theorem advance_nil (p : Position) : p.advance [] = p := rfl

/-- The first character is stepped over first. -/
@[simp]
theorem advance_cons (p : Position) (c : Char) (cs : List Char) :
    p.advance (c :: cs) = (p.step c).advance cs := rfl

/-- Texts in a row are passed one after the other. -/
theorem advance_append (p : Position) (cs ds : List Char) :
    p.advance (cs ++ ds) = (p.advance cs).advance ds :=
  List.foldl_append

/-- A step passes one character, whether or not it begins a line. -/
@[simp]
theorem step_offset (p : Position) (c : Char) : (p.step c).offset = p.offset + 1 := by
  unfold step
  split <;> rfl

/-- The offset counts the characters that were passed. -/
theorem advance_offset (p : Position) (cs : List Char) :
    (p.advance cs).offset = p.offset + cs.length := by
  induction cs generalizing p with
  | nil => rfl
  | cons c cs ih => simp [ih]; omega

end Position

/-- Where a token lies: the half-open range of its characters, and the line and column
of the first. -/
structure Span where
  start : Nat
  stop : Nat
  line : Nat
  column : Nat
deriving DecidableEq

namespace Span

/-- The span of the characters between two places. -/
def between (p q : Position) : Span :=
  ⟨p.offset, q.offset, p.line, p.column⟩

end Span

/-- What a token means. -/
inductive Kind where
  /-- Plain text. -/
  | text
  /-- A known escape, with the color name it selects. -/
  | color (name : String)
  /-- A run of stars. -/
  | style (style : Style)
  /-- An emote, with the digits between its colons. -/
  | emote (id : String)
  /-- The end of the source. -/
  | eof
deriving DecidableEq

namespace Kind

/-- The name of a kind in a listing. -/
def describe : Kind → String
  | text => "text"
  | color name => "color(" ++ name ++ ")"
  | style s => "style(" ++ s.name ++ ")"
  | emote id => "emote(" ++ id ++ ")"
  | eof => "EOF"

end Kind

/-- A piece of the source, what it means and where it lies. -/
structure Token where
  kind : Kind
  value : String
  span : Span
deriving DecidableEq

namespace Token

/-- The offset of the token's first character. -/
def position (t : Token) : Nat := t.span.start

end Token

end Marquee.Markup
