import Marquee.Toml.Scalar
import Marquee.Toml.Table
import Marquee.Toml.Text

/-!
# Reading TOML

A document is a sequence of lines: a header, a key with its value, or nothing, each with
an optional comment. Values may hold newlines of their own. Nothing is more than `limit`
levels deep: neither values within values nor the parts of a key.

`value` and its companions go down by an allowance of steps. Each step is paid for by a
character of its own, so the length of the source is allowance enough (`read`).
-/

namespace Marquee.Toml

namespace Reader

/-- What follows the blanks of a line. -/
def skip (s : List Char) : List Char := s.dropWhile isBlank

/-- What follows blanks, newlines and comments. Nothing but plain characters may stand in
a comment (`commented`). -/
def gap (commented : Bool) : List Char → Option (List Char)
  | [] => some []
  | '\n' :: s => gap false s
  | '\r' :: '\n' :: s => gap false s
  | c :: s =>
    if commented then if isPlain c then gap true s else none
    else if c = '#' then gap true s
    else if isBlank c then gap false s
    else some (c :: s)

/-- What follows the rest of a line on which nothing else may stand. -/
def endLine (s : List Char) : Option (List Char) :=
  match skip s with
  | [] => some []
  | '#' :: s =>
    match s.dropWhile isPlain with
    | [] => some []
    | s => newline? s
  | s => newline? s

/-! ### Keys -/

/-- Whether a character may stand in a key without quotes. -/
def isBare (c : Char) : Bool := c.isAlphanum || c == '_' || c == '-'

/-- One part of a key. -/
def key : List Char → Option (String × List Char)
  | '"' :: s => do
    let (cs, rest) ← Text.basic s
    pure (String.ofList cs, rest)
  | '\'' :: s => do
    let (cs, rest) ← Text.literal s
    pure (String.ofList cs, rest)
  | s =>
    match s.takeWhile isBare with
    | [] => none
    | cs => some (String.ofList cs, s.dropWhile isBare)

/-- How many levels there may be. -/
def limit : Nat := 80

/-- The parts of a key before the last, the last part, and what follows it and its
blanks. -/
def parts : Nat → List Char → Option (List String × String × List Char)
  | 0, _ => none
  | steps + 1, s => do
    let (k, s) ← key s
    match skip s with
    | '.' :: s => do
      let (ks, last, s) ← parts steps (skip s)
      pure (k :: ks, last, s)
    | s => pure ([], k, s)

/-- A key of no more than so many parts. -/
def path (steps : Nat) (s : List Char) : Option (List String × String × List Char) := do
  let (ks, last, s) ← parts steps s
  if ks.length < limit then some (ks, last, s) else none

/-! ### Values -/

mutual

/-- One value, with room for so many levels in it. -/
def value : Nat → Nat → List Char → Option (Document × List Char)
  | _, 0, _ => none
  | room, steps + 1, s =>
    match s, room with
    | '"' :: _, _ | '\'' :: _, _ => do
      let (cs, s) ← Text.read s
      pure (.text (String.ofList cs), s)
    | '[' :: s, room + 1 => do
      match ← gap false s with
      | ']' :: s => pure (.list false [], s)
      | s => do
        let (vs, s) ← items room steps s
        pure (.list false vs, s)
    | '\x7b' :: s, room + 1 => do
      match ← gap false s with
      | '\x7d' :: s => pure (.record [], s)
      | s => do
        let (fs, s) ← inlineFields room steps [] s
        pure (.record (closeFields fs), s)
    | s, _ => Scalar.read s

/-- Values up to the bracket that closes their list; a comma may stand before it. -/
def items : Nat → Nat → List Char → Option (List Document × List Char)
  | _, 0, _ => none
  | room, steps + 1, s => do
    let (v, s) ← value room steps s
    match ← gap false s with
    | ']' :: s => pure ([v], s)
    | ',' :: s =>
      match ← gap false s with
      | ']' :: s => pure ([v], s)
      | s => do
        let (vs, s) ← items room steps s
        pure (v :: vs, s)
    | _ => none

/-- Fields up to the brace that closes their table; a comma may stand before it. -/
def inlineFields : Nat → Nat → Fields → List Char → Option (Fields × List Char)
  | _, 0, _, _ => none
  | room, steps + 1, fs, s => do
    let (fs, s) ← pair room steps (fun ks last v => fs.put last v ks) s
    match ← gap false s with
    | '\x7d' :: s => pure (fs, s)
    | ',' :: s =>
      match ← gap false s with
      | '\x7d' :: s => pure (fs, s)
      | s => inlineFields room steps fs s
    | _ => none

/-- A key and its value, put where they belong. -/
def pair : Nat → Nat → (List String → String → Document → Option Fields) → List Char →
    Option (Fields × List Char)
  | _, 0, _, _ => none
  | room, steps + 1, put, s => do
    let (ks, last, s) ← path steps s
    match s with
    | '=' :: s => do
      let (v, s) ← value room steps (skip s)
      pure (← put ks last v, s)
    | _ => none

end

/-! ### Lines -/

/-- The whole of a document, given what the lines before have made of it and the path of
the header in force. -/
def lines : Nat → Fields → List String → List Char → Option Fields
  | 0, _, _, _ => none
  | steps + 1, root, here, s => do
    match ← gap false s with
    | [] => pure root
    | '[' :: '[' :: s => do
      let (ks, last, s) ← path steps (skip s)
      match s with
      | ']' :: ']' :: s => do
        let root ← root.within (Fields.openElement last) ks
        lines steps root (ks ++ [last]) (← endLine s)
      | _ => none
    | '[' :: s => do
      let (ks, last, s) ← path steps (skip s)
      match s with
      | ']' :: s => do
        let root ← root.within (Fields.openTable last) ks
        lines steps root (ks ++ [last]) (← endLine s)
      | _ => none
    | s => do
      let (root, s) ← pair limit steps (fun ks last v => root.within (Fields.put last v ks) here) s
      lines steps root here (← endLine s)

/-- The source without a byte order mark. -/
def unmarked : List Char → List Char
  | '\uFEFF' :: s => s
  | s => s

end Reader

/-- The document that a text is in TOML. -/
def read (source : String) : Option Document := do
  let s := Reader.unmarked source.toList
  let fs ← Reader.lines (s.length + 2) [] [] s
  pure (.record (closeFields fs))

end Marquee.Toml
