/-!
# Texts in TOML

A text stands between double quotes, with escapes, or between single quotes, without;
three quotes instead of one let it go on over several lines. A newline right behind
three opening quotes is not part of the text.

Every reader starts behind the opening quotes and hands back the rest of the source
behind the closing ones.
-/

namespace Marquee.Toml

/-- Whether a character is a blank within a line. -/
def isBlank (c : Char) : Bool := c == ' ' || c == '\t'

/-- Whether a character may stand in a text or comment as it is: a tab, or no control. -/
def isPlain (c : Char) : Bool :=
  c == '\t' || (32 ≤ c.toNat && c.toNat != 127)

/-- The source behind the newline that it starts with, if it starts with one. -/
def newline? : List Char → Option (List Char)
  | '\n' :: s => some s
  | '\r' :: '\n' :: s => some s
  | _ => none

namespace Text

/-! ### Escapes -/

/-- The character that a letter stands for behind a backslash. -/
def letter? : Char → Option Char
  | 'b' => some '\x08'
  | 't' => some '\t'
  | 'n' => some '\n'
  | 'f' => some '\x0c'
  | 'r' => some '\r'
  | 'e' => some '\x1b'
  | '"' => some '"'
  | '\\' => some '\\'
  | _ => none

/-- The value of a hexadecimal digit of either case. -/
def digit? (c : Char) : Option Nat :=
  if c.isDigit then some (c.toNat - 48)
  else if 'a' ≤ c ∧ c ≤ 'f' then some (c.toNat - 87)
  else if 'A' ≤ c ∧ c ≤ 'F' then some (c.toNat - 55)
  else none

/-- The character with the number that some digits spell. -/
def coded? (ds : List Char) : Option Char := do
  let n ← ds.foldlM (fun n c => do pure (n * 16 + (← digit? c))) 0
  if n.isValidChar then some (Char.ofNat n) else none

/-- One more character in front of what is read after it. -/
def push (c : Option Char) (more : Option (List Char × List Char)) :
    Option (List Char × List Char) := do
  let c ← c
  let (cs, rest) ← more
  pure (c :: cs, rest)

/-! ### The four forms -/

/-- A text with escapes, on one line. -/
def basic : List Char → Option (List Char × List Char)
  | [] => none
  | '"' :: s => some ([], s)
  | '\\' :: s =>
    match s with
    | 'x' :: a :: b :: s => push (coded? [a, b]) (basic s)
    | 'u' :: a :: b :: c :: d :: s => push (coded? [a, b, c, d]) (basic s)
    | 'U' :: a :: b :: c :: d :: e :: f :: g :: h :: s =>
      push (coded? [a, b, c, d, e, f, g, h]) (basic s)
    | c :: s => push (letter? c) (basic s)
    | [] => none
  | c :: s => if isPlain c then push (some c) (basic s) else none

/-- A text without escapes, on one line. -/
def literal : List Char → Option (List Char × List Char)
  | [] => none
  | '\'' :: s => some ([], s)
  | c :: s => if isPlain c then push (some c) (literal s) else none

/-- Quotes behind the closing three: up to two of them end the text. -/
def closing (quote : Char) : List Char → List Char × List Char
  | a :: b :: s =>
    if a = quote then if b = quote then ([a, b], s) else ([a], b :: s) else ([], a :: b :: s)
  | [a] => if a = quote then ([a], []) else ([], [a])
  | [] => ([], [])

/-- Whether only blanks stand before the next newline. -/
def endsLine (s : List Char) : Bool :=
  (newline? (s.dropWhile isBlank)).isSome

/-- Whether a character may stand in a text of several lines; a carriage return only
belongs to a newline. -/
def isPlainIn (c : Char) (following : List Char) : Bool :=
  c == '\n' || isPlain c || (c == '\r' && following.head? == some '\n')

/-- A text with escapes, on several lines. A backslash at the end of a line takes away
the newline and all blanks and newlines after it (`joining`). -/
def basicLines (joining : Bool) : List Char → Option (List Char × List Char)
  | [] => none
  | '"' :: '"' :: '"' :: s => some (closing '"' s)
  | '\\' :: s =>
    if endsLine s then basicLines true s
    else
      match s with
      | 'x' :: a :: b :: s => push (coded? [a, b]) (basicLines false s)
      | 'u' :: a :: b :: c :: d :: s => push (coded? [a, b, c, d]) (basicLines false s)
      | 'U' :: a :: b :: c :: d :: e :: f :: g :: h :: s =>
        push (coded? [a, b, c, d, e, f, g, h]) (basicLines false s)
      | c :: s => push (letter? c) (basicLines false s)
      | [] => none
  | c :: s =>
    if !isPlainIn c s then none
    else if joining && (isBlank c || c == '\n' || c == '\r') then basicLines true s
    else push (some c) (basicLines false s)

/-- A text without escapes, on several lines. -/
def literalLines : List Char → Option (List Char × List Char)
  | [] => none
  | '\'' :: '\'' :: '\'' :: s => some (closing '\'' s)
  | c :: s => if isPlainIn c s then push (some c) (literalLines s) else none

/-- The source without a newline at its start. -/
def afterNewline (s : List Char) : List Char := (newline? s).getD s

/-- A text in any of the four forms, opening quotes included. -/
def read : List Char → Option (List Char × List Char)
  | '"' :: '"' :: '"' :: s => basicLines false (afterNewline s)
  | '\'' :: '\'' :: '\'' :: s => literalLines (afterNewline s)
  | '"' :: s => basic s
  | '\'' :: s => literal s
  | _ => none

end Text

end Marquee.Toml
