import Marquee.Number.Layout

/-!
# JSON Values

A document as it is written: numbers keep their spelling, and fields their order and
repetitions, so that reading and printing lose nothing.
-/

namespace Marquee.Json

/-- A JSON document. -/
inductive Value where
  | null
  | boolean (b : Bool)
  | number (numeral : String)
  | text (s : String)
  | list (items : List Value)
  | record (fields : List (String × Value))

namespace Value

/-- A whole number. -/
def whole (n : Nat) : Value := .number (toString n)

/-- A single-precision number; what is not finite has no numeral. -/
def single (x : Float32) : Value :=
  if x.isFinite then .number (Number.Layout.json.write x) else .null

/-- A value that may be absent. -/
def orNull {α : Type} (f : α → Value) : Option α → Value
  | none => .null
  | some a => f a

end Value

end Marquee.Json
