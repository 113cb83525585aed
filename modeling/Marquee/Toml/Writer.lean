import Marquee.Number.Layout

/-!
# Writing TOML

A document is written as headed sections of plain fields, an empty line between two
sections. Every field has a line of its own, and a text with newlines several.

## How a text is written

The first of these that the text allows (`Form.of`):

1. between double quotes, if nothing but tabs needs an escape;
2. between single quotes, if it has no control, no newline and no single quote;
3. between three double quotes, if it has no control and no backslash, and nowhere three
   double quotes in a row;
4. between three single quotes, if it has no control and nowhere three single quotes in
   a row;
5. with escapes, between three double quotes if it has a newline, and between one if not.
-/

namespace Marquee.Toml

/-- The quotes around a text. -/
inductive Form where
  | basic
  | literal
  | basicLines
  | literalLines
deriving DecidableEq

namespace Form

/-- Whether a character is a control other than tab and newline. -/
def isControl (c : Char) : Bool :=
  c != '\t' && c != '\n' && (c.toNat < 32 || c.toNat == 127)

/-- Whether a character stands three times in a row. -/
def tripled (q : Char) : List Char → Bool
  | a :: b :: c :: s => (a == q && b == q && c == q) || tripled q (b :: c :: s)
  | _ => false

/-- The form that a text is written in. -/
def of (s : List Char) : Form :=
  let newline := s.contains '\n'
  if s.any isControl then if newline then basicLines else basic
  else if !newline && !s.contains '\\' && !s.contains '"' then basic
  else if !newline && !s.contains '\'' then literal
  else if !s.contains '\\' && !tripled '"' s then basicLines
  else if !tripled '\'' s then literalLines
  else if newline then basicLines
  else basic

/-- The quotes on either side. -/
def quotes : Form → List Char
  | basic => ['"']
  | literal => ['\'']
  | basicLines => ['"', '"', '"']
  | literalLines => ['\'', '\'', '\'']

/-- Whether newlines stand as they are. -/
def several : Form → Bool
  | basicLines | literalLines => true
  | basic | literal => false

end Form

/-! ### Escapes -/

/-- A control by its number, in four capital digits. -/
def numbered (c : Char) : List Char :=
  let ds := (Nat.toDigits 16 c.toNat).map Char.toUpper
  '\\' :: 'u' :: (List.replicate (4 - ds.length) '0' ++ ds)

/-- A text between double quotes. On several lines newlines stay, and so do two quotes in
a row (`run`); a third is escaped. -/
def escaped (several : Bool) (run : Nat) : List Char → List Char
  | [] => []
  | '"' :: s =>
    if several && run < 2 then '"' :: escaped several (run + 1) s
    else '\\' :: '"' :: escaped several 0 s
  | '\n' :: s =>
    if several then '\n' :: escaped several 0 s else '\\' :: 'n' :: escaped several 0 s
  | '\\' :: s => '\\' :: '\\' :: escaped several 0 s
  | '\x08' :: s => '\\' :: 'b' :: escaped several 0 s
  | '\t' :: s => '\\' :: 't' :: escaped several 0 s
  | '\x0c' :: s => '\\' :: 'f' :: escaped several 0 s
  | '\r' :: s => '\\' :: 'r' :: escaped several 0 s
  | c :: s => (if Form.isControl c then numbered c else [c]) ++ escaped several 0 s

/-- A text as it is written. On several lines a newline comes first, which a reader drops. -/
def writeText (text : String) : String :=
  let s := text.toList
  let form := Form.of s
  let body :=
    match form with
    | .basic | .basicLines => escaped form.several 0 s
    | .literal | .literalLines => s
  let start := if form.several && s.contains '\n' then ['\n'] else []
  String.ofList (form.quotes ++ start ++ body ++ form.quotes)

/-! ### Sections -/

/-- A value on a line of its own. -/
inductive Plain where
  | boolean (b : Bool)
  | word (n : UInt32)
  | single (x : Float32)
  | text (s : String)

namespace Plain

/-- A value as it is written. -/
def write : Plain → String
  | boolean true => "true"
  | boolean false => "false"
  | word n => toString n.toNat
  | single x => Number.Layout.toml.write x
  | text s => writeText s

end Plain

/-- Fields under a header. -/
structure Section where
  path : List String
  fields : List (String × Plain)

namespace Section

/-- A section as it is written. -/
def write (s : Section) : String :=
  "[" ++ ".".intercalate s.path ++ "]\n" ++
    String.join (s.fields.map fun (key, v) => key ++ " = " ++ v.write ++ "\n")

end Section

/-- Sections as they are written. -/
def write (sections : List Section) : String :=
  "\n".intercalate (sections.map Section.write)

end Marquee.Toml
