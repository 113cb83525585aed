import Marquee.Document.Basic

/-!
# Plain Values in TOML

Truth values, numbers and moments, each a token without a blank, except that a blank may
part the day of a moment from its time. Digits may be grouped by single underscores.

A moment is checked and then kept as a record that nobody asks for; nothing in this
library is a moment, but a configuration may hold some.
-/

namespace Marquee.Toml.Scalar

/-! ### Numbers -/

/-- Grouped digits without their underscores; there is a digit on either side of each. -/
def grouped? (isDigit : Char → Bool) : List Char → Option (List Char)
  | [] => none
  | [c] => if isDigit c then some [c] else none
  | c :: '_' :: s => if isDigit c then (grouped? isDigit s).map (c :: ·) else none
  | c :: s => if isDigit c then (grouped? isDigit s).map (c :: ·) else none

/-- Grouped decimal digits that do not begin with a superfluous zero. -/
def decimal? (s : List Char) : Option (List Char) := do
  let ds ← grouped? Char.isDigit s
  if ds.head? = some '0' ∧ 1 < ds.length then none else some ds

/-- A token without the sign at its start, and whether that was a minus. -/
def signed : List Char → Bool × List Char
  | '-' :: s => (true, s)
  | '+' :: s => (false, s)
  | s => (false, s)

/-- The value of a digit of any base up to sixteen. -/
def digitValue (c : Char) : Nat :=
  if c.isDigit then c.toNat - 48 else if 'a' ≤ c then c.toNat - 87 else c.toNat - 55

/-- A whole number in another base than ten. -/
def based? (base : Nat) (isDigit : Char → Bool) (s : List Char) : Option Int := do
  let ds ← grouped? isDigit s
  pure (ds.foldl (fun n c => n * base + digitValue c) 0 : Nat)

def isHexadecimal (c : Char) : Bool :=
  c.isDigit || ('a' ≤ c && c ≤ 'f') || ('A' ≤ c && c ≤ 'F')

def isOctal (c : Char) : Bool := '0' ≤ c && c ≤ '7'

def isBinary (c : Char) : Bool := c == '0' || c == '1'

/-- A whole number of any size. Only decimal ones may have a sign. -/
def integer? : List Char → Option Int
  | '0' :: 'x' :: s => based? 16 isHexadecimal s
  | '0' :: 'o' :: s => based? 8 isOctal s
  | '0' :: 'b' :: s => based? 2 isBinary s
  | s => do
    let (negative, body) := signed s
    let ds ← decimal? body
    let n : Int := Nat.ofDigitChars 10 ds 0
    pure (if negative then -n else n)

/-- A whole number as far as it fits: 64 bits to stand for something, 128 bits to be
allowed at all. -/
def ofInteger (n : Int) : Option Document :=
  if Int64.minValue.toInt ≤ n ∧ n < UInt64.size then some (.whole n)
  else if -0x80000000000000000000000000000000 ≤ n ∧ n < 0x100000000000000000000000000000000 then
    some .unreadable
  else none

/-- The power of ten behind the letter of an exponent. -/
def exponent? (s : List Char) : Option Int := do
  let (negative, body) := signed s
  let ds ← grouped? Char.isDigit body
  let n : Int := Nat.ofDigitChars 10 ds 0
  pure (if negative then -n else n)

def isExponentMark (c : Char) : Bool := c == 'e' || c == 'E'

/-- A number with a point or an exponent or both. -/
def pointed? (s : List Char) : Option Number.Decimal := do
  let mantissa := s.takeWhile (!isExponentMark ·)
  let power := s.dropWhile (!isExponentMark ·)
  let whole := mantissa.takeWhile (· != '.')
  let part := mantissa.dropWhile (· != '.')
  if power.isEmpty && part.isEmpty then none
  let whole ← decimal? whole
  let part ← if part.isEmpty then some [] else grouped? Char.isDigit (part.drop 1)
  let power ← if power.isEmpty then some 0 else exponent? (power.drop 1)
  pure (.ofParts whole part power)

/-- A number that is not written as a whole one. A finite one has to fit a double. -/
def real? (s : List Char) : Option Float :=
  let (negative, body) := signed s
  match String.ofList body with
  | "inf" => some (if negative then -1 / 0 else 1 / 0)
  | "nan" => some (0 / 0)
  | _ => do
    let x := (← pointed? body).toDouble negative
    if x.isInf then none else some x

/-! ### Moments -/

/-- A number of exactly so many digits, and the rest. -/
def fixed? (count : Nat) (s : List Char) : Option (Nat × List Char) :=
  let ds := s.take count
  if ds.length = count ∧ ds.all Char.isDigit then
    some (Nat.ofDigitChars 10 ds 0, s.drop count)
  else none

/-- The rest behind a given character. -/
def after? (c : Char) : List Char → Option (List Char)
  | d :: s => if d = c then some s else none
  | [] => none

/-- The length of a month. -/
def daysIn (year month : Nat) : Nat :=
  if month = 2 then
    if year % 4 = 0 ∧ (year % 100 ≠ 0 ∨ year % 400 = 0) then 29 else 28
  else if month ∈ [4, 6, 9, 11] then 30 else 31

/-- What follows a day. -/
def day? (s : List Char) : Option (List Char) := do
  let (year, s) ← fixed? 4 s
  let (month, s) ← fixed? 2 (← after? '-' s)
  let (day, s) ← fixed? 2 (← after? '-' s)
  if 1 ≤ month ∧ month ≤ 12 ∧ 1 ≤ day ∧ day ≤ daysIn year month then some s else none

/-- What follows a fraction of a second, if there is one. -/
def fraction? : List Char → Option (List Char)
  | '.' :: s => if (s.head?.map Char.isDigit).getD false then some (s.dropWhile Char.isDigit) else none
  | s => some s

/-- What follows the time of a day; its seconds may be left out. -/
def time? (s : List Char) : Option (List Char) := do
  let (hour, s) ← fixed? 2 s
  let (minute, s) ← fixed? 2 (← after? ':' s)
  if 23 < hour ∨ 59 < minute then none
  match s with
  | ':' :: s => do
    let (second, s) ← fixed? 2 s
    if 60 < second then none
    fraction? s
  | s => some s

/-- Whether a token is the distance from universal time. -/
def isOffset : List Char → Bool
  | ['Z'] | ['z'] => true
  | c :: s =>
    (c == '+' || c == '-') &&
      match (do
        let (hour, s) ← fixed? 2 s
        let (minute, s) ← fixed? 2 (← after? ':' s)
        pure (hour, minute, s) : Option (Nat × Nat × List Char)) with
      | some (hour, minute, []) => minute ≤ 59 && hour * 60 + minute ≤ 24 * 60
      | _ => false
  | [] => false

/-- Whether a token is a day, a time, or a day with a time, perhaps with an offset. -/
def isMoment (s : List Char) : Bool :=
  match day? s with
  | some [] => true
  | some (c :: s) =>
    (c == 'T' || c == 't' || c == ' ') &&
      match time? s with
      | some [] => true
      | some s => isOffset s
      | none => false
  | none => time? s == some []

/-- The record that a moment is kept as. -/
def moment : Document := .record [("moment", .null)]

/-! ### Tokens -/

/-- The value that a token stands for. -/
def ofToken? (s : List Char) : Option Document :=
  match String.ofList s with
  | "true" => some (.boolean true)
  | "false" => some (.boolean false)
  | _ =>
    match integer? s with
    | some n => ofInteger n
    | none =>
      match real? s with
      | some x => some (.real x)
      | none => if isMoment s then some moment else none

/-- Whether a token ends before a character. -/
def endsToken (c : Char) : Bool :=
  c ∈ [' ', '\t', '\n', '\r', ',', ']', '\x7d', '#']

/-- The token at the start of the source, and the rest. -/
def token (s : List Char) : List Char × List Char :=
  (s.takeWhile (!endsToken ·), s.dropWhile (!endsToken ·))

/-- A plain value, and the rest of the source. A day goes on behind one blank if a token
follows. -/
def read (s : List Char) : Option (Document × List Char) := do
  let (first, rest) := token s
  match day? first, rest with
  | some [], ' ' :: more =>
    let (second, rest) := token more
    if second.isEmpty then pure (moment, ' ' :: more)
    else pure (← ofToken? (first ++ ' ' :: second), rest)
  | _, _ => pure (← ofToken? first, rest)

end Marquee.Toml.Scalar
