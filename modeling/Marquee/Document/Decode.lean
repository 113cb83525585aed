import Marquee.Document.Basic

/-!
# Taking Documents Apart

Decoders for plain values and for records. A record is given field by field, each under
its name, or as a list of the same values in the order in which they are asked for.
Fields that nobody asks for are ignored; one that is asked for may be written once only.
-/

namespace Marquee

/-- A way to read a value off a document. -/
abbrev Decoder (α : Type) := Document → Option α

namespace Decoder

/-! ### Plain values -/

def boolean : Decoder Bool
  | .boolean b => some b
  | _ => none

/-- A whole number below a limit. -/
def below (limit : Nat) : Decoder Nat
  | .whole n => if 0 ≤ n ∧ n < limit then some n.toNat else none
  | _ => none

def byte : Decoder UInt8 := fun v => (below UInt8.size v).map .ofNat

def word : Decoder UInt32 := fun v => (below UInt32.size v).map .ofNat

/-- Any number, rounded to single precision. A whole one is rounded once, another is a
double already. -/
def single : Decoder Float32
  | .whole n => some (Number.ofWhole n)
  | .real x => some (Number.narrow x)
  | _ => none

def text : Decoder String
  | .text s => some s
  | _ => none

/-- A value that may be left out by writing null. -/
def optional {α : Type} (f : Decoder α) : Decoder (Option α)
  | .null => some none
  | v => (f v).map some

/-- One of several names; a record of a single null field says its name too. -/
def choice {α : Type} (ofName? : String → Option α) : Decoder α
  | .text s => ofName? s
  | .record [(s, .null)] => ofName? s
  | _ => none

end Decoder

/-! ### Records -/

/-- What is left to read of a record: fields by name, or values in order. -/
inductive Slots where
  | named (fields : List (String × Document))
  | ordered (strict : Bool) (items : List Document)

namespace Slots

/-- The value for a field, if there is one, and what is left. -/
def take (name : String) : Slots → Option (Option Document × Slots)
  | named fields =>
    match fields.filter (·.1 == name) with
    | [] => some (none, named fields)
    | [(_, v)] => some (some v, named fields)
    | _ => none
  | ordered strict [] => some (none, ordered strict [])
  | ordered strict (v :: items) => some (some v, ordered strict items)

/-- Whether nothing is left that should have been asked for. -/
def done : Slots → Bool
  | ordered true (_ :: _) => false
  | _ => true

end Slots

/-- A reader of records. -/
abbrev RecordReader (α : Type) := StateT Slots Option α

namespace RecordReader

/-- A field that has to be there. -/
def required {α : Type} (name : String) (f : Decoder α) : RecordReader α := fun slots => do
  let (v, rest) ← slots.take name
  pure (← f (← v), rest)

/-- A field with a value to fall back to. -/
def defaulted {α : Type} (name : String) (f : Decoder α) (otherwise : α) : RecordReader α :=
  fun slots => do
    match ← slots.take name with
    | (some v, rest) => pure (← f v, rest)
    | (none, rest) => pure (otherwise, rest)

/-- The decoder of a record. -/
def decoder {α : Type} (r : RecordReader α) : Decoder α
  | .record fields => (r (.named fields)).map (·.1)
  | .list strict items => do
    let (a, rest) ← r (.ordered strict items)
    if rest.done then some a else none
  | _ => none

end RecordReader

end Marquee
