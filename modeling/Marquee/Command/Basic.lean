import Marquee.Command.Arguments
import Marquee.Number.Literal

/-!
# Commands

What the program can be told to do. Markup on a command line may write the escape
character as a backslash and the letter `e`.
-/

namespace Marquee

namespace Command

/-- What to set, and how. -/
structure Job where
  markup : String
  /-- The configuration file; the defaults if there is none. -/
  config : Option String := none
  /-- The regular font, in place of the configured one. -/
  font : Option String := none
  /-- The file to write to, in place of the standard output. -/
  output : Option String := none
  /-- Whether pictures are left out. -/
  noFetch : Bool := false
  /-- How long the heading has been floating. -/
  floatAt : Option Float32 := none

end Command

/-- What the program can be told to do. -/
inductive Command where
  /-- List the tokens of some markup. -/
  | tokens (markup : String)
  /-- Write the leaves of some markup. -/
  | leaves (markup : String)
  /-- Set some markup and write the scene. -/
  | render (job : Command.Job)
  /-- Write the default configuration to a new file. -/
  | initConfig (file : String)
  /-- Say what the program is. -/
  | version

namespace Command

/-- Markup with the escape character where it is spelled. -/
def unescape : List Char → List Char
  | '\\' :: 'e' :: s => '\x1b' :: unescape s
  | c :: s => c :: unescape s
  | [] => []

/-- The markup that an operand spells. -/
def markup (operand : String) : String := String.ofList (unescape operand.toList)

/-- A path that may be given; it may not be empty. -/
def path? (name : String) (as : List Argument) : Option (Option String) := do
  let value ← setting? name as
  if value = some "" then none
  pure value

/-- The number that a setting may give. -/
def number? (name : String) (as : List Argument) : Option (Option Float32) := do
  match ← setting? name as with
  | none => pure none
  | some value => some <$> Number.Literal.single? value

/-- What setting a heading understands. -/
def renderUsage : Usage :=
  { settings := [("config", some 'c'), ("font", none), ("output", some 'o'), ("float-at", none)]
    flags := ["no-fetch"] }

/-- The file that a new configuration goes to unless another is named. -/
def defaultFile : String := "text3d.toml"

/-- The command that a command line gives; nothing if it is not understood. -/
def ofArguments? : List String → Option Command
  | "tokens" :: rest => do
    match operands (← arguments? {} rest) with
    | [text] => pure (.tokens (markup text))
    | _ => none
  | "ast" :: rest => do
    match operands (← arguments? {} rest) with
    | [text] => pure (.leaves (markup text))
    | _ => none
  | "render" :: rest => do
    let as ← arguments? renderUsage rest
    match operands as with
    | [text] =>
      pure (.render
        { markup := markup text
          config := ← path? "config" as
          font := ← path? "font" as
          output := ← path? "output" as
          noFetch := ← flag? "no-fetch" as
          floatAt := ← number? "float-at" as })
    | _ => none
  | "init-config" :: rest => do
    match operands (← arguments? {} rest) with
    | [] => pure (.initConfig defaultFile)
    | [""] => none
    | [file] => pure (.initConfig file)
    | _ => none
  | "--version" :: _ | "-V" :: _ => some .version
  | _ => none

end Command

end Marquee
