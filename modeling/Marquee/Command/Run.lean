import Marquee.Command.Basic
import Marquee.Command.Report
import Marquee.Config.File
import Marquee.Heading.Compile
import Marquee.Markup.Record
import Marquee.Scene.Motion
import Marquee.Scene.Record

/-!
# Running Commands

Every command is carried out on some disk and ends in a report. Setting a heading also
takes a loader for its pictures, unless they are left out.
-/

namespace Marquee.Command

open Fetch Files Markup Scene

variable {m : Type → Type} [Monad m]

/-! ### Listings -/

/-- A text filled up with blanks on its right. -/
def padRight (width : Nat) (s : String) : String :=
  s ++ String.ofList (List.replicate (width - s.length) ' ')

/-- A text filled up with blanks on its left. -/
def padLeft (width : Nat) (s : String) : String :=
  String.ofList (List.replicate (width - s.length) ' ') ++ s

/-- The line of a token: where it lies, what it is, and its text. -/
def tokenLine (t : Token) : String :=
  padLeft 3 (toString t.span.line) ++ ":" ++ padRight 3 (toString t.span.column) ++ " " ++
    padRight 16 t.kind.describe ++ " " ++ Text.quoted t.value ++ "\n"

/-- The lines of all tokens. -/
def listTokens (markup : String) : Report :=
  { out := String.join ((tokenize markup).map tokenLine) }

/-- The leaves of some markup, on lines. -/
def listLeaves (markup : String) : Report :=
  .said (leavesToJson (parse (tokenize markup)).1).pretty

/-! ### Setting a heading -/

/-- The gentle sway of a heading. -/
def sway : Oscillation :=
  ⟨⟨0.02, 0.5⟩, ⟨0.02, 1.3⟩, ⟨0.02, 0.8⟩⟩

/-- A scene as it is shown: swaying, if some time has passed, and leaning back toward the
viewer. -/
def posed (camera : Camera) (floatAt : Option Float32) (scene : Group) : Group :=
  let scene := match floatAt with
    | some elapsed => scene.float elapsed .sin sway
    | none => scene
  let t := scene.transform
  let rotation := { t.rotation with x := t.rotation.x + camera.tiltToward t.position }
  { scene with transform := { t with rotation } }

/-- The scene of some markup, with all pictures that can be had. -/
def sceneOf (o : Heading.Options) (loader : Loader) (job : Job) : Group :=
  let loader := if job.noFetch then Loader.offline else loader
  let (heading, _, store) := Heading.compile o loader job.markup {}
  let heading :=
    if job.noFetch then heading else (heading.settle store.isCancelled store).heading
  posed o.camera job.floatAt heading.scene

/-- The configuration of a job. -/
def configOf (d : Disk m) (job : Job) : m (Except Error Config) := do
  let loaded ← match job.config with
    | some path => Config.load d path
    | none => pure (.ok {})
  pure (loaded.map fun c =>
    { c with fonts := { c.fonts with regular := job.font <|> c.fonts.regular } })

/-- Sets a heading and writes the scene. -/
def carryOut (d : Disk m) (loader : Loader) (job : Job) : m Report := do
  match ← configOf d job with
  | .error e => pure (.failure ("failed to load config: " ++ job.config.getD "") e.chain)
  | .ok config =>
    match ← Heading.Options.ofConfig d config with
    | .error e => pure (.failure "failed to set up the generator" e.chain)
    | .ok o =>
      let json := (sceneOf o loader job).toJson.pretty
      match job.output with
      | none => pure (.said json)
      | some path =>
        match ← d.write path json with
        | .ok () => pure (.said ("✅ Wrote scene to " ++ path))
        | .error f => pure (.failure ("failed to write output: " ++ path) [f.message])

/-- Writes the default configuration where there is no file yet. -/
def writeDefaults (d : Disk m) (path : String) : m Report := do
  if ← d.has path then pure (.failure ("'" ++ path ++ "' already exists") [])
  else
    match ← Config.save {} d path with
    | .ok () => pure (.said ("✨ Wrote default config to " ++ path))
    | .error e => pure (.failure ("failed to write config: " ++ path) e.chain)

/-! ### The program -/

/-- The program and its version. -/
def title : String := "text3d 0.1.0"

/-- Carries out a command. -/
def run (d : Disk m) (loader : Loader) : Command → m Report
  | .tokens markup => pure (listTokens markup)
  | .leaves markup => pure (listLeaves markup)
  | .render job => carryOut d loader job
  | .initConfig file => writeDefaults d file
  | .version => pure (.said title)

/-- Carries out what a command line says. -/
def execute (d : Disk m) (loader : Loader) (line : List String) : m Report :=
  match ofArguments? line with
  | some command => run d loader command
  | none => pure .misuse

end Marquee.Command
