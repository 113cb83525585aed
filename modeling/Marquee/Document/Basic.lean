import Marquee.Number.Precision

/-!
# Documents

What a data file says, whatever its format: numbers are told apart by whether they are
whole, and a record keeps every field that was written, in order.
-/

namespace Marquee

/-- The content of a data file. -/
inductive Document where
  | null
  | boolean (b : Bool)
  /-- A whole number that fits 64 bits, with or without a sign. -/
  | whole (n : Int)
  | real (x : Float)
  | text (s : String)
  /-- A list. One that is `strict` may hold no more items than are asked for. -/
  | list (strict : Bool) (items : List Document)
  | record (fields : List (String × Document))
  /-- Something well formed that stands for no value. It does no harm where nobody
  asks for it. -/
  | unreadable

end Marquee
