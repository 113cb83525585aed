/-!
# File Faults

Why a file cannot be read or written. Faults of the system are numbered; the number is
part of their wording.
-/

namespace Marquee.Files

/-- Why a file cannot be read or written. -/
inductive Fault where
  | missing
  | notFolder
  | folder
  | nameTooLong
  /-- A path with the character that ends paths for the system. -/
  | cutPath
  /-- A file that should hold text and does not. -/
  | notText
  /-- Any other fault, by its wording. -/
  | other (message : String)
deriving DecidableEq

namespace Fault

/-- The wording of a numbered fault. -/
def numbered (text : String) (number : Nat) : String :=
  text ++ " (os error " ++ toString number ++ ")"

/-- The wording of a fault. -/
def message : Fault → String
  | missing => numbered "No such file or directory" 2
  | notFolder => numbered "Not a directory" 20
  | folder => numbered "Is a directory" 21
  | nameTooLong => numbered "File name too long" 36
  | cutPath => "file name contained an unexpected NUL byte"
  | notText => "stream did not contain valid UTF-8"
  | other message => message

end Fault

end Marquee.Files
