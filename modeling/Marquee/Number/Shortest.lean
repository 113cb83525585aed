/-!
# Shortest Decimals

A binary fraction is written with the fewest decimal digits that still single it out
among its neighbors. All arithmetic is exact: the fraction and the two halfway points
around it are natural numbers over one denominator.

## Convention

`Interval.ofBinary m q precision least` stands around `m * 2 ^ q`. The halfway points
lie half a unit in the last place away, except that the lower one is only a quarter
away where the next smaller fraction has a finer unit. The halfway points round to the
fraction itself exactly when `m` is even, and then count as inside.

For one digit, two digits, and so on, the two decimals next to the fraction are tested;
the first length with one inside wins, of two inside the nearer, and `Tie` settles the
rest.
-/

namespace Marquee.Number

/-- A decimal: some digits read as one number, times a power of ten. -/
structure Decimal where
  digits : Nat
  exponent : Int
deriving DecidableEq

/-- A fraction and the halfway points around it, over one denominator. -/
structure Interval where
  lower : Nat
  middle : Nat
  upper : Nat
  denominator : Nat
  closed : Bool

/-- Which of two equally near decimals is written. -/
inductive Tie where
  /-- The one whose last digit is even. -/
  | even
  /-- The larger one. -/
  | up
deriving DecidableEq

namespace Interval

/-- The interval around `m * 2 ^ q`, for significands of `precision` bits and a least
exponent `least`. -/
def ofBinary (m : Nat) (q : Int) (precision : Nat) (least : Int) : Interval :=
  let scale := Nat.pow 2 (q - 2).toNat
  let below := if m = Nat.pow 2 (precision - 1) ∧ least < q then 1 else 2
  ⟨(4 * m - below) * scale, 4 * m * scale, (4 * m + 2) * scale, Nat.pow 2 (2 - q).toNat,
    m % 2 == 0⟩

/-- The exponent of the leading digit of the fraction. -/
def leading (i : Interval) : Int :=
  if i.denominator ≤ i.middle then
    ((Nat.toDigits 10 (i.middle / i.denominator)).length : Int) - 1
  else
    -((Nat.toDigits 10 ((i.denominator - 1) / i.middle)).length : Int)

/-- The interval with the power of ten at `exponent` taken out, so that decimals with
that exponent become natural numbers. -/
def onGrid (i : Interval) (exponent : Int) : Interval :=
  let up := Nat.pow 10 (-exponent).toNat
  let down := Nat.pow 10 exponent.toNat
  ⟨i.lower * up, i.middle * up, i.upper * up, i.denominator * down, i.closed⟩

/-- Whether a natural number singles the fraction out. -/
def contains (i : Interval) (n : Nat) : Bool :=
  let v := n * i.denominator
  if i.closed then i.lower ≤ v && v ≤ i.upper else i.lower < v && v < i.upper

/-- The natural number next to the fraction that singles it out, if there is one. -/
def pick? (tie : Tie) (i : Interval) : Option Nat :=
  let below := i.middle / i.denominator
  let rest := 2 * (i.middle % i.denominator)
  match i.contains below, i.contains (below + 1) with
  | false, false => none
  | true, false => some below
  | false, true => some (below + 1)
  | true, true =>
    if rest < i.denominator then some below
    else if i.denominator < rest then some (below + 1)
    else match tie with
      | .even => some (below + below % 2)
      | .up => some (below + 1)

end Interval

namespace Decimal

/-- The same decimal without zeros at its end. -/
def strip (d : Decimal) : Decimal :=
  if h : d.digits ≠ 0 ∧ d.digits % 10 = 0 then strip ⟨d.digits / 10, d.exponent + 1⟩ else d
termination_by d.digits
decreasing_by omega

/-- The shortest decimal that singles the fraction out, among those of at most
`places` digits. -/
def shortest (tie : Tie) (places : Nat) (i : Interval) : Decimal :=
  let attempts := (List.range places).map fun (n : Nat) => i.leading - n
  match attempts.findSome? fun e => (i.onGrid e).pick? tie |>.map (Decimal.mk · e) with
  | some d => d.strip
  | none => ⟨i.middle / i.denominator, 0⟩

end Decimal

end Marquee.Number
