import Marquee.Document.Basic
import Marquee.Number.Scaling

/-!
# Reading JSON

A document in JSON is read whole or not at all. Well-formed parts that stand for no
value, such as half of a surrogate pair or a number beyond every double, are kept as
unreadable ones: they matter only to those who ask for them.

Every reader takes characters from the front and hands back the rest. `value` and its
companions go down by an allowance of steps. A bracket, a comma or a plain value pays for
each, so one more than the length of the text suffices (`read`).
-/

namespace Marquee.Json

namespace Reader

/-- The characters that may stand between any two parts. -/
def isBlank (c : Char) : Bool :=
  c == ' ' || c == '\n' || c == '\t' || c == '\r'

/-- What follows the blanks. -/
def skip (s : List Char) : List Char := s.dropWhile isBlank

/-! ### Texts -/

/-- A piece of a text: a character as it stands, or a 16-bit unit by its number. -/
inductive Piece where
  | character (c : Char)
  | unit (n : Nat)

/-- The value of a hexadecimal digit of either case. -/
def digit? (c : Char) : Option Nat :=
  if c.isDigit then some (c.toNat - 48)
  else if 'a' ≤ c ∧ c ≤ 'f' then some (c.toNat - 87)
  else if 'A' ≤ c ∧ c ≤ 'F' then some (c.toNat - 55)
  else none

/-- The unit that four digits spell. -/
def unit? (a b c d : Char) : Option Piece := do
  pure (.unit ((((← digit? a) * 16 + (← digit? b)) * 16 + (← digit? c)) * 16 + (← digit? d)))

/-- The character that a letter stands for behind a backslash. -/
def escaped? : Char → Option Char
  | '"' => some '"'
  | '\\' => some '\\'
  | '/' => some '/'
  | 'b' => some '\x08'
  | 'f' => some '\x0c'
  | 'n' => some '\n'
  | 'r' => some '\r'
  | 't' => some '\t'
  | _ => none

/-- The pieces up to the closing quote. Controls have to be escaped. -/
def pieces : List Char → Option (List Piece × List Char)
  | '"' :: s => some ([], s)
  | '\\' :: 'u' :: a :: b :: c :: d :: s => do
    let u ← unit? a b c d
    let (ps, rest) ← pieces s
    pure (u :: ps, rest)
  | '\\' :: c :: s => do
    let e ← escaped? c
    let (ps, rest) ← pieces s
    pure (.character e :: ps, rest)
  | c :: s =>
    if c.toNat < 32 ∨ c = '\\' then none
    else do
      let (ps, rest) ← pieces s
      pure (.character c :: ps, rest)
  | [] => none

/-- The text that pieces make up. Units beyond the first plane come in pairs. -/
def join? : List Piece → Option (List Char)
  | [] => some []
  | .character c :: ps => (join? ps).map (c :: ·)
  | .unit n :: ps =>
    if n < 0xD800 ∨ 0xDFFF < n then (join? ps).map (Char.ofNat n :: ·)
    else
      match ps with
      | .unit m :: ps =>
        if n < 0xDC00 ∧ 0xDC00 ≤ m ∧ m ≤ 0xDFFF then
          (join? ps).map (Char.ofNat (0x10000 + (n - 0xD800) * 0x400 + (m - 0xDC00)) :: ·)
        else none
      | _ => none

/-- A text up to its closing quote; nothing inside if it has half a pair. -/
def text (s : List Char) : Option (Option String × List Char) := do
  let (ps, rest) ← pieces s
  pure ((join? ps).map String.ofList, rest)

/-! ### Numbers -/

/-- A numeral by its parts. -/
structure Numeral where
  negative : Bool
  integer : List Char
  fraction : List Char
  exponent : Option Int

/-- Digits, at least one. -/
def digits (s : List Char) : Option (List Char × List Char) :=
  match s.takeWhile Char.isDigit with
  | [] => none
  | ds => some (ds, s.dropWhile Char.isDigit)

/-- The digits before the point; a leading zero stands alone. -/
def integer : List Char → Option (List Char × List Char)
  | '0' :: s => some (['0'], s)
  | s => digits s

/-- The digits behind the point, if there is one. -/
def fraction : List Char → Option (List Char × List Char)
  | '.' :: s => digits s
  | s => some ([], s)

/-- The sign of an exponent, and what follows it. -/
def sign : List Char → Bool × List Char
  | '-' :: s => (true, s)
  | '+' :: s => (false, s)
  | s => (false, s)

/-- The power of ten, if one is given. -/
def exponent : List Char → Option (Option Int × List Char)
  | [] => some (none, [])
  | c :: s =>
    if c = 'e' ∨ c = 'E' then do
      let (negative, s) := sign s
      let (ds, rest) ← digits s
      let n : Int := Nat.ofDigitChars 10 ds 0
      pure (some (if negative then -n else n), rest)
    else some (none, c :: s)

/-- A numeral. -/
def numeral (s : List Char) : Option (Numeral × List Char) := do
  let negative := s.head? == some '-'
  let (whole, s) ← integer (if negative then s.drop 1 else s)
  let (part, s) ← fraction s
  let (power, s) ← exponent s
  pure (⟨negative, whole, part, power⟩, s)

namespace Numeral

/-- A numeral as a double, by its leading digits scaled. -/
def toReal (n : Numeral) : Document :=
  let (whole, cut) := Number.gather 0 n.integer
  let (all, rest) := Number.gather whole n.fraction
  let exponent := n.exponent.getD 0 + cut + rest - n.fraction.length
  match Number.scale? all exponent with
  | some x => .real (if n.negative then -x else x)
  | none => .unreadable

/-- The number that a numeral stands for. One without point and exponent is whole as
long as it fits 64 bits, except that minus zero keeps its sign. -/
def toDocument (n : Numeral) : Document :=
  let magnitude := Nat.ofDigitChars 10 n.integer 0
  if n.fraction ≠ [] ∨ n.exponent.isSome then n.toReal
  else if n.negative then
    if 0 < magnitude ∧ magnitude ≤ UInt64.size / 2 then .whole (-magnitude) else n.toReal
  else if magnitude < UInt64.size then .whole magnitude
  else n.toReal

end Numeral

/-! ### Documents -/

/-- The record of some fields, unless a name is unreadable. -/
def record (fields : List (Option String × Document)) : Document :=
  match fields.mapM fun (name, v) => name.map (·, v) with
  | some named => .record named
  | none => .unreadable

mutual

/-- One value. -/
def value : Nat → List Char → Option (Document × List Char)
  | 0, _ => none
  | steps + 1, s =>
    match skip s with
    | 'n' :: 'u' :: 'l' :: 'l' :: s => some (.null, s)
    | 't' :: 'r' :: 'u' :: 'e' :: s => some (.boolean true, s)
    | 'f' :: 'a' :: 'l' :: 's' :: 'e' :: s => some (.boolean false, s)
    | '"' :: s => do
      let (t, s) ← text s
      pure ((t.map Document.text).getD .unreadable, s)
    | '[' :: s =>
      match skip s with
      | ']' :: s => some (.list true [], s)
      | s => do
        let (vs, s) ← items steps s
        pure (.list true vs, s)
    | '\x7b' :: s =>
      match skip s with
      | '\x7d' :: s => some (.record [], s)
      | s => do
        let (fs, s) ← fields steps s
        pure (record fs, s)
    | s => do
      let (n, s) ← numeral s
      pure (n.toDocument, s)

/-- Values up to the bracket that closes their list. -/
def items : Nat → List Char → Option (List Document × List Char)
  | 0, _ => none
  | steps + 1, s => do
    let (v, s) ← value steps s
    match skip s with
    | ']' :: s => pure ([v], s)
    | ',' :: s => do
      let (vs, s) ← items steps s
      pure (v :: vs, s)
    | _ => none

/-- Fields up to the brace that closes their record. -/
def fields : Nat → List Char → Option (List (Option String × Document) × List Char)
  | 0, _ => none
  | steps + 1, s =>
    match skip s with
    | '"' :: s => do
      let (name, s) ← text s
      match skip s with
      | ':' :: s => do
        let (v, s) ← value steps s
        match skip s with
        | '\x7d' :: s => pure ([(name, v)], s)
        | ',' :: s => do
          let (fs, s) ← fields steps s
          pure ((name, v) :: fs, s)
        | _ => none
      | _ => none
    | _ => none

end

end Reader

/-- The document that a text is in JSON, with blanks around it. -/
def read (source : String) : Option Document :=
  let s := source.toList
  match Reader.value (s.length + 1) s with
  | some (v, rest) => if (Reader.skip rest).isEmpty then some v else none
  | none => none

end Marquee.Json
