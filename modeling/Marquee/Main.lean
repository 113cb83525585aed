import Marquee.Command.Run
import Marquee.Font.TrueType

/-!
# The Program

The command line on the disk and the standard streams of the machine. No network is
reached from here, so every picture that is asked for stays a placeholder.
-/

namespace Marquee

open Files

/-- The fault with some number, which may come with its sign changed. -/
def numberedFault (number : UInt32) (text : String) : Fault :=
  match min number (-number) with
  | 2 => .missing
  | 20 => .notFolder
  | 21 => .folder
  | 36 => .nameTooLong
  | n => .other (Fault.numbered text.capitalize n.toNat)

/-- The fault behind a failed operation. -/
def faultOf : IO.Error → Fault
  | .noFileOrDirectory _ n s | .alreadyExists _ n s | .invalidArgument _ n s
  | .permissionDenied _ n s | .resourceExhausted _ n s | .inappropriateType _ n s
  | .noSuchThing _ n s | .otherError n s | .resourceBusy n s | .resourceVanished n s
  | .unsupportedOperation n s | .hardwareFault n s | .unsatisfiedConstraints n s
  | .illegalOperation n s | .protocolError n s | .timeExpired n s | .interrupted _ n s =>
    numberedFault n s
  | e => .other (toString e)

/-- What some bytes hold. -/
def contentOf (bytes : ByteArray) : Content :=
  match Font.TrueType.face? bytes, String.fromUTF8? bytes with
  | some f, _ => .font f
  | none, some s => .text s
  | none, none => .binary

/-- The files of the machine. -/
def machine : Disk IO where
  has path := do
    try
      let _ ← IO.FS.realPath path
      pure true
    catch _ => pure false
  read path := do
    try
      pure (.ok (contentOf (← IO.FS.readBinFile path)))
    catch e => pure (.error (faultOf e))
  write path text := do
    try
      IO.FS.writeFile path text
      pure (.ok ())
    catch e => pure (.error (faultOf e))

end Marquee

def main (args : List String) : IO UInt32 := do
  let report ← Marquee.Command.execute Marquee.machine Marquee.Fetch.Loader.refused args
  (← IO.getStdout).putStr report.out
  (← IO.getStderr).putStr report.err
  return .ofNat report.code
