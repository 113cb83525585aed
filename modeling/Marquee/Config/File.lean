import Marquee.Config.Toml
import Marquee.Error
import Marquee.Files.Disk

/-!
# Configurations on Disk
-/

namespace Marquee.Config

open Files

variable {m : Type → Type} [Monad m]

/-- The configuration in the file at a path. -/
def load (d : Disk m) (path : String) : m (Except Error Config) := do
  match ← d.readText path with
  | .error f => pure (.error (.file f))
  | .ok source =>
    match ofToml? source with
    | some c => pure (.ok c)
    | none => pure (.error .notConfig)

/-- Saves a configuration in the file at a path. -/
def save (c : Config) (d : Disk m) (path : String) : m (Except Error Unit) := do
  pure ((← d.write path c.toToml).mapError .file)

end Marquee.Config
