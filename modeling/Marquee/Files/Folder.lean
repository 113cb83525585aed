import Marquee.Files.Disk

/-!
# Folders

A folder without folders in it, held in memory, that paths start from. Nothing is known
of the world outside but that the folder lies in another, and so on up.
-/

namespace Marquee.Files

/-- Files by name. -/
structure Folder where
  files : List (String × Content)

/-- What a path leads to. -/
inductive Place where
  | folder
  | file (name : String) (content : Content)
  /-- Nothing, where a file could be made. -/
  | free (name : String)
  /-- Nothing, with a path that only a folder can have. -/
  | noFolder

namespace Folder

/-- The most bytes that a name may have. -/
def nameLimit : Nat := 255

/-- The most bytes that a path may have. -/
def pathLimit : Nat := 4095

/-- Follows the names of a path, starting `inside` the folder or above it. -/
def walk (d : Folder) (inside : Bool) : List String → Except Fault Place
  | [] => .ok .folder
  | name :: rest =>
    if name = "" ∨ name = "." then d.walk inside rest
    else if name = ".." then d.walk false rest
    else if nameLimit < name.utf8ByteSize then .error .nameTooLong
    else if !inside then .error .missing
    else
      match d.files.lookup name with
      | some content => if rest.isEmpty then .ok (.file name content) else .error .notFolder
      | none =>
        if rest.isEmpty then .ok (.free name)
        else if rest.all (· == "") then .ok .noFolder
        else .error .missing

/-- What a path leads to. -/
def find (d : Folder) (path : String) : Except Fault Place :=
  if path.isEmpty then .error .missing
  else if path.contains '\x00' then .error .cutPath
  else if pathLimit < path.utf8ByteSize then .error .nameTooLong
  else d.walk (path.front != '/') (path.splitOn "/")

/-- Whether there is anything at a path. -/
def has (d : Folder) (path : String) : Bool :=
  match d.find path with
  | .ok .folder | .ok (.file ..) => true
  | _ => false

/-- What the file at a path holds. -/
def read (d : Folder) (path : String) : Except Fault Content :=
  match d.find path with
  | .ok (.file _ content) => .ok content
  | .ok .folder => .error .folder
  | .ok (.free _) | .ok .noFolder => .error .missing
  | .error f => .error f

/-- The folder with a text under a name. -/
def put (d : Folder) (name text : String) : Folder :=
  ⟨(name, .text text) :: d.files.filter (·.1 != name)⟩

/-- The folder with a text at a path. -/
def write (d : Folder) (path text : String) : Except Fault Folder :=
  match d.find path with
  | .ok (.file name _) | .ok (.free name) => .ok (d.put name text)
  | .ok .folder | .ok .noFolder => .error .folder
  | .error f => .error f

/-- A folder as a disk. -/
def disk : Disk (StateM Folder) where
  has path := do pure ((← get).has path)
  read path := do pure ((← get).read path)
  write path text := do
    match (← get).write path text with
    | .ok d => do
      set d
      pure (.ok ())
    | .error f => pure (.error f)

end Folder

end Marquee.Files
