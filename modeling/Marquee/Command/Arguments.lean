/-!
# Command Arguments

What stands on a command line, told apart by form. A setting is written `--name value`,
`--name=value`, `-n value`, `-nvalue` or `-n=value`; a value that starts with a dash only
in the forms that join it to its name, unless it is a dash alone. Behind `--` everything
is an operand.
-/

namespace Marquee.Command

/-- What a command understands besides operands. -/
structure Usage where
  /-- Names that take a value, some with a letter for short. -/
  settings : List (String × Option Char) := []
  /-- Names that take none. -/
  flags : List String := []

/-- One thing on a command line. -/
inductive Argument where
  | operand (value : String)
  | setting (name : String) (value : String)
  | flag (name : String)
deriving DecidableEq

namespace Usage

/-- The name that a letter is short for. -/
def ofLetter? (u : Usage) (c : Char) : Option String :=
  (u.settings.find? (·.2 == some c)).map (·.1)

/-- Whether a name takes a value. -/
def isSetting (u : Usage) (name : String) : Bool := u.settings.any (·.1 == name)

end Usage

/-- Whether an argument may follow the name of a setting as its value. -/
def mayFollow (s : String) : Bool := s == "-" || s.front != '-'

/-- How an argument begins. -/
inductive Shape where
  | operand
  /-- Two dashes, a name, and perhaps a value joined to it. -/
  | long (name : String) (value : Option String)
  /-- A dash, a letter, and perhaps a value joined to it. -/
  | short (letter : Char) (value : Option String)

/-- The shape of an argument. -/
def Shape.of (s : String) : Shape :=
  match s.toList with
  | '-' :: '-' :: body =>
    let name := String.ofList (body.takeWhile (· != '='))
    match body.dropWhile (· != '=') with
    | '=' :: value => .long name (some (String.ofList value))
    | _ => .long name none
  | '-' :: letter :: body =>
    match body with
    | [] => .short letter none
    | '=' :: value => .short letter (some (String.ofList value))
    | value => .short letter (some (String.ofList value))
  | _ => .operand

/-- The arguments of a command line; nothing if one is not understood. -/
def arguments? (u : Usage) : List String → Option (List Argument)
  | [] => some []
  | s :: rest =>
    if s = "--" then some (rest.map .operand)
    else
      match Shape.of s with
      | .operand => (arguments? u rest).map (.operand s :: ·)
      | .long name (some value) =>
        if u.isSetting name then (arguments? u rest).map (.setting name value :: ·) else none
      | .short letter (some value) => do
        let name ← u.ofLetter? letter
        (arguments? u rest).map (.setting name value :: ·)
      | .long name none =>
        if u.flags.contains name then (arguments? u rest).map (.flag name :: ·)
        else if u.isSetting name then following name rest
        else none
      | .short letter none => do
        let name ← u.ofLetter? letter
        following name rest
where
  /-- The arguments from the value of a setting on. -/
  following (name : String) : List String → Option (List Argument)
    | value :: rest =>
      if mayFollow value then (arguments? u rest).map (.setting name value :: ·) else none
    | [] => none

/-! ### What was given -/

/-- The operands, in order. -/
def operands (as : List Argument) : List String :=
  as.filterMap fun
    | .operand value => some value
    | _ => none

/-- Whether a flag was given; nothing if it was given twice. -/
def flag? (name : String) (as : List Argument) : Option Bool :=
  match as.filter (· == .flag name) with
  | [] => some false
  | [_] => some true
  | _ => none

/-- The value of a setting, if one was given; nothing if several were. -/
def setting? (name : String) (as : List Argument) : Option (Option String) :=
  match as.filterMap fun
    | .setting n value => if n = name then some value else none
    | _ => none with
  | [] => some none
  | [value] => some (some value)
  | _ => none

end Marquee.Command
