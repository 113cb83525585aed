import Marquee.Files.Fault
import Marquee.Text.Quoted

/-!
# Errors

What can go wrong at the edges: with fonts, pictures, configurations and files. Markup
itself is never wrong.
-/

namespace Marquee

/-- Something that went wrong. -/
inductive Error where
  | font (reason : String) (path : String)
  | texture (reason : String) (url : String)
  | config (reason : String)
  | file (fault : Files.Fault)
deriving DecidableEq

namespace Error

/-- A font file that cannot be read. -/
def fontUnread (path : String) (f : Files.Fault) : Error :=
  font ("failed to read font file: " ++ f.message) path

/-- A file that is no font. -/
def notFont (name : String) : Error := font "failed to parse font" name

/-- A configuration without its one required font. -/
def regularMissing : Error := config "fonts.regular must point at a font file"

/-- A configuration that cannot be made out. -/
def notConfig : Error := config "TOML parse error"

/-- The wording of an error. -/
def message : Error → String
  | font reason path => "font error: " ++ reason ++ " (" ++ Text.quoted path ++ ")"
  | texture reason url => "texture error: " ++ reason ++ " (" ++ url ++ ")"
  | config reason => "config error: " ++ reason
  | file f => "IO error: " ++ f.message

/-- The wording of an error and of what caused it, the outermost first. -/
def chain : Error → List String
  | file f => [(file f).message, f.message]
  | e => [e.message]

end Error

end Marquee
