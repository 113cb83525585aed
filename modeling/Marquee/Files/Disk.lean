import Marquee.Files.Fault
import Marquee.Font.Outline

/-!
# Disks

What the program asks of files, whatever holds them.
-/

namespace Marquee.Files

/-- What a file holds. -/
inductive Content where
  | text (s : String)
  | font (f : Font.OutlineFace)
  /-- Bytes that are neither. -/
  | binary

namespace Content

/-- The text of a file that holds one. -/
def text? : Content → Except Fault String
  | text s => .ok s
  | _ => .error .notText

end Content

/-- A place to keep files, reached by actions of some monad. -/
structure Disk (m : Type → Type) where
  /-- Whether there is anything at a path. -/
  has : String → m Bool
  read : String → m (Except Fault Content)
  /-- Makes a file with a text or replaces it. -/
  write : String → String → m (Except Fault Unit)

namespace Disk

variable {m : Type → Type} [Monad m]

/-- The text of a file. -/
def readText (d : Disk m) (path : String) : m (Except Fault String) := do
  match ← d.read path with
  | .ok c => pure c.text?
  | .error f => pure (.error f)

end Disk

end Marquee.Files
