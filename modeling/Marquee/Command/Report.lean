import Marquee.Error

/-!
# Reports

What a command leaves behind besides files: an exit code and what it says. A failure says
what was being done, and below it what caused it, the causes numbered if there are
several.
-/

namespace Marquee.Command

/-- What a command leaves behind besides files. -/
structure Report where
  /-- Zero for a success, one for a failure, two for a command line not understood. -/
  code : Nat := 0
  out : String := ""
  err : String := ""

namespace Report

/-- The report of a command line that was not understood. -/
def misuse : Report := { code := 2 }

/-- A line of output. -/
def said (line : String) : Report := { out := line ++ "\n" }

/-- A number at the end of five places. -/
def place (n : Nat) : String :=
  let ds := Nat.toDigits 10 n
  String.ofList (List.replicate (5 - ds.length) ' ' ++ ds)

/-- The causes of a failure, each on a line. -/
def causes : List String → String
  | [] => ""
  | [cause] => "\n\nCaused by:\n    " ++ cause
  | several =>
    "\n\nCaused by:" ++
      String.join (several.zipIdx.map fun (cause, i) => "\n" ++ place i ++ ": " ++ cause)

/-- The report of a failure. -/
def failure (doing : String) (because : List String) : Report :=
  { code := 1, err := "Error: " ++ doing ++ causes because ++ "\n" }

end Report

end Marquee.Command
