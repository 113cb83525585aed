import Marquee.Number.Precision

/-!
# Number Literals

Numbers as people type them: a sign, digits with a point anywhere among them, and a power
of ten, the last two optional; or a word for what is not finite, in any case.
-/

namespace Marquee.Number.Literal

/-- A text without the sign at its start, and whether that was a minus. -/
def signed : List Char → Bool × List Char
  | '-' :: s => (true, s)
  | '+' :: s => (false, s)
  | s => (false, s)

/-- The digits at the start, and the rest. -/
def digits (s : List Char) : List Char × List Char :=
  (s.takeWhile Char.isDigit, s.dropWhile Char.isDigit)

/-- The digits behind a point, if there is one, and the rest. -/
def fraction : List Char → List Char × List Char
  | '.' :: s => digits s
  | s => ([], s)

/-- The power of ten that the rest of a literal gives. -/
def exponent? : List Char → Option Int
  | [] => some 0
  | c :: s =>
    if c = 'e' ∨ c = 'E' then
      let (negative, s) := signed s
      match digits s with
      | ([], _) | (_, _ :: _) => none
      | (ds, []) =>
        let n : Int := Nat.ofDigitChars 10 ds 0
        some (if negative then -n else n)
    else none

/-- The single-precision number nearest to what a text spells. -/
def single? (text : String) : Option Float32 :=
  let (negative, body) := signed text.toList
  match String.ofList (body.map Char.toLower) with
  | "inf" | "infinity" => some (if negative then -1 / 0 else 1 / 0)
  | "nan" => some (0 / 0)
  | _ => do
    let (whole, rest) := digits body
    let (part, rest) := fraction rest
    if whole.isEmpty && part.isEmpty then none
    let power ← exponent? rest
    some ((Decimal.ofParts whole part power).toSingle negative)

end Marquee.Number.Literal
