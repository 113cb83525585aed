import Marquee.Number.Shortest

/-!
# Decimals Scaled in Double Precision

A quick way to read a decimal: its leading digits become a double, and one product or a
few quotients bring in the power of ten. Every step rounds, so the result may miss the
nearest double by a little, and digits that 64 bits cannot hold are not looked at.
-/

namespace Marquee.Number

/-- A number with digits appended to it for as long as 64 bits hold it, and how many
digits were left. -/
def gather (n : Nat) : List Char → Nat × Nat
  | [] => (n, 0)
  | c :: s =>
    let next := n * 10 + (c.toNat - '0'.toNat)
    if next < UInt64.size then gather next s else (n, s.length + 1)

/-- The largest power of ten that a double holds. -/
def largestPower : Nat := 308

/-- A power of ten as a double. -/
def power (k : Nat) : Float := .ofScientific 1 false k

/-- A double divided by a power of ten, the largest there is at a time. -/
def lower (x : Float) (k : Nat) : Float :=
  if x == 0 then x
  else if k ≤ largestPower then x / power k
  else lower (x / power largestPower) (k - largestPower)
termination_by k
decreasing_by
  have : largestPower = 308 := rfl
  omega

/-- A whole number times a power of ten; nothing if a double cannot hold it. -/
def scale? (n : Nat) (exponent : Int) : Option Float :=
  let x := Float.ofScientific n false 0
  let k := exponent.natAbs
  if exponent < 0 then some (lower x k)
  else if k ≤ largestPower then
    let y := x * power k
    if y.isInf then none else some y
  else if x == 0 then some x
  else none

end Marquee.Number
