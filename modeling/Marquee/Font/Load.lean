import Marquee.Config.Basic
import Marquee.Error
import Marquee.Files.Disk

/-!
# Loading Fonts

A face is named after its file. A family needs a regular face; the others are loaded
only where a configuration names them, in a fixed order, and the first failure decides.
-/

namespace Marquee.Font

open Files

namespace Face

/-- The face that a file holds. -/
def ofContent (name : String) : Content → Except Error Face
  | .font f => .ok (f.toFace name)
  | _ => .error (.notFont name)

/-- The last name of a path, without its ending. -/
def stem (path : String) : String :=
  match (path.splitOn "/").reverse.find? fun n => n != "" && n != "." with
  | none => path
  | some ".." => path
  | some name =>
    match (name.splitOn ".").reverse with
    | _ :: more =>
      let kept := ".".intercalate more.reverse
      if kept.isEmpty then name else kept
    | [] => name

variable {m : Type → Type} [Monad m]

/-- The face in the file at a path. -/
def load (d : Disk m) (path : String) : m (Except Error Face) := do
  match ← d.read path with
  | .ok content => pure (ofContent (stem path) content)
  | .error f => pure (.error (.fontUnread path f))

/-- The face in a file that may not be named. -/
def load? (d : Disk m) : Option String → m (Except Error (Option Face))
  | none => pure (.ok none)
  | some path => do pure ((← load d path).map some)

end Face

namespace Family

variable {m : Type → Type} [Monad m]

/-- The faces that a configuration names. -/
def load (d : Disk m) (paths : FontPaths) : m (Except Error Family) := ExceptT.run do
  let some regular := paths.regular | throw .regularMissing
  return {
    regular := ← ExceptT.mk (Face.load d regular)
    italic := ← ExceptT.mk (Face.load? d paths.italic)
    bold := ← ExceptT.mk (Face.load? d paths.bold)
    boldItalic := ← ExceptT.mk (Face.load? d paths.boldItalic) }

end Family

end Marquee.Font
