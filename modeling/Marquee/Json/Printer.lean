import Marquee.Json.Value

/-!
# Printing JSON

Two layouts of one document: compact, without a blank anywhere, and pretty, with every
item and field on a line of its own, two spaces deeper than what holds it. Empty lists
and records stay closed on one line in both.
-/

namespace Marquee.Json

/-- How a character stands between quotes. Quote, backslash and controls are escaped,
five of the controls by a letter of their own. -/
def escape (c : Char) : List Char :=
  match c with
  | '"' => ['\\', '"']
  | '\\' => ['\\', '\\']
  | '\n' => ['\\', 'n']
  | '\r' => ['\\', 'r']
  | '\t' => ['\\', 't']
  | '\x08' => ['\\', 'b']
  | '\x0c' => ['\\', 'f']
  | c =>
    if c.toNat < 32 then
      ['\\', 'u', '0', '0', Nat.digitChar (c.toNat / 16), Nat.digitChar (c.toNat % 16)]
    else [c]

/-- A text between quotes. -/
def quote (s : String) : String :=
  "\"" ++ String.ofList (s.toList.flatMap escape) ++ "\""

namespace Value

mutual

/-- A document without blanks. -/
def compact : Value → String
  | null => "null"
  | boolean true => "true"
  | boolean false => "false"
  | number numeral => numeral
  | text s => quote s
  | list items => "[" ++ ",".intercalate (compactItems items) ++ "]"
  | record fields => "\x7b" ++ ",".intercalate (compactFields fields) ++ "\x7d"

def compactItems : List Value → List String
  | [] => []
  | v :: vs => v.compact :: compactItems vs

def compactFields : List (String × Value) → List String
  | [] => []
  | (k, v) :: fs => (quote k ++ ":" ++ v.compact) :: compactFields fs

end

/-- Lines between two brackets, each at its depth. -/
def block (opening closing : String) (depth : Nat) (lines : List String) : String :=
  if lines.isEmpty then opening ++ closing
  else
    let indent (n : Nat) := "\n" ++ String.ofList (List.replicate (2 * n) ' ')
    opening ++ indent (depth + 1) ++ ("," ++ indent (depth + 1)).intercalate lines
      ++ indent depth ++ closing

mutual

/-- A document on lines, at a given depth. -/
def prettyAt (depth : Nat) : Value → String
  | null => "null"
  | boolean true => "true"
  | boolean false => "false"
  | number numeral => numeral
  | text s => quote s
  | list items => block "[" "]" depth (prettyItems (depth + 1) items)
  | record fields => block "\x7b" "\x7d" depth (prettyFields (depth + 1) fields)

def prettyItems (depth : Nat) : List Value → List String
  | [] => []
  | v :: vs => v.prettyAt depth :: prettyItems depth vs

def prettyFields (depth : Nat) : List (String × Value) → List String
  | [] => []
  | (k, v) :: fs => (quote k ++ ": " ++ v.prettyAt depth) :: prettyFields depth fs

end

/-- A document on lines. -/
def pretty (v : Value) : String := v.prettyAt 0

end Value

end Marquee.Json
