import Marquee.Number.Shortest

/-!
# Number Layouts

How a single-precision number is laid out as text. The digits are the shortest ones;
everything a format decides for itself is a field of one `Layout`.
-/

namespace Marquee.Number

open Float.Model (Format UnpackedFloat)

/-- What a format decides about its numbers. -/
structure Layout where
  /-- The choice between two equally near shortest decimals. -/
  tie : Tie
  /-- Whether a number whose leading digit has this exponent is written without one. -/
  positional : Int → Bool
  /-- The text of an infinity. -/
  infinity : String
  /-- The text of the other infinity. -/
  minusInfinity : String
  /-- The text of what is not a number. -/
  nan : String

namespace Layout

/-- Numbers of a data file in JSON: positional from a millionth up to thirteen whole
digits. What is not finite has no number and is written as nothing. -/
def json : Layout :=
  ⟨.even, fun e => -6 ≤ e && e ≤ 12, "null", "null", "null"⟩

/-- Numbers of a configuration file: always positional. -/
def toml : Layout :=
  ⟨.up, fun _ => true, "inf", "-inf", "nan"⟩

/-- Digits with a point among, before or behind them; there is a digit on either side. -/
def place (digits : List Char) (leading : Int) : List Char :=
  let whole := (leading + 1).toNat
  if leading < 0 then
    '0' :: '.' :: (List.replicate (-leading - 1).toNat '0' ++ digits)
  else if digits.length ≤ whole then
    digits ++ List.replicate (whole - digits.length) '0' ++ ['.', '0']
  else digits.take whole ++ '.' :: digits.drop whole

/-- Digits with the point behind the first, and the exponent, always signed. -/
def scale (digits : List Char) (leading : Int) : List Char :=
  let fraction := digits.drop 1
  digits.take 1 ++ (if fraction.isEmpty then [] else '.' :: fraction) ++
    'e' :: (if leading < 0 then '-' else '+') :: Nat.toDigits 10 leading.natAbs

/-- A positive decimal as text. -/
def digits (l : Layout) (d : Decimal) : String :=
  let ds := Nat.toDigits 10 d.digits
  let leading := d.exponent + ds.length - 1
  String.ofList (if l.positional leading then place ds leading else scale ds leading)

/-- The shortest decimal of a positive single-precision fraction. -/
def shortest (l : Layout) (m : Nat) (q : Int) : Decimal :=
  Decimal.shortest l.tie 9 (.ofBinary m q 24 (-149))

/-- A single-precision number as text. -/
def write (l : Layout) (x : Float32) : String :=
  match x.toModel.unpack with
  | .notANumber => l.nan
  | .infinity .positive => l.infinity
  | .infinity .negative => l.minusInfinity
  | .zero .positive => "0.0"
  | .zero .negative => "-0.0"
  | .finite .positive m q _ => l.digits (l.shortest m q)
  | .finite .negative m q _ => "-" ++ l.digits (l.shortest m q)

end Layout

end Marquee.Number
