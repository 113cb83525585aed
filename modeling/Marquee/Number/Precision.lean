import Marquee.Number.Shortest

/-!
# From Decimals to Binary Numbers

Decimals are read as the nearest double or the nearest single-precision number, ties to
even; a double is narrowed to the nearest single. What is too large becomes an infinity.
-/

namespace Marquee.Number

open Float.Model (Format UnpackedFloat)

/-- The single-precision number nearest to a double. -/
def narrow (x : Float) : Float32 :=
  let pack (y : UnpackedFloat) : Float32 :=
    .ofBits (.ofBitVec (UnpackedFloat.pack Format.binary32 y))
  match UnpackedFloat.unpack Format.binary64 x.toBits.toBitVec with
  | .finite sign m q _ => pack (UnpackedFloat.round Format.binary32 sign m q)
  | y => pack y

namespace Decimal

/-- The decimal that a whole part, a fraction and an exponent spell. -/
def ofParts (whole fraction : List Char) (exponent : Int) : Decimal :=
  ⟨Nat.ofDigitChars 10 (whole ++ fraction) 0, exponent - fraction.length⟩

/-- The decimal with its exponent held between limits beyond which doubles are infinite
or zero, so that rounding it takes few steps. A digit shifts the limits by one place. -/
def clamp (d : Decimal) : Decimal :=
  let places : Int := (Nat.toDigits 10 d.digits).length
  { d with exponent := max (-400 - places) (min 400 d.exponent) }

/-- The double nearest to a decimal. -/
def toDouble (d : Decimal) (negative : Bool) : Float :=
  let e := d.clamp.exponent
  let x := Float.ofScientific d.digits (e < 0) e.natAbs
  if negative then -x else x

/-- The single-precision number nearest to a decimal. -/
def toSingle (d : Decimal) (negative : Bool) : Float32 :=
  let e := d.clamp.exponent
  let x := Float32.ofScientific d.digits (e < 0) e.natAbs
  if negative then -x else x

end Decimal

/-- The single-precision number nearest to a whole number. -/
def ofWhole (n : Int) : Float32 :=
  Decimal.toSingle ⟨n.natAbs, 0⟩ (n < 0)

end Marquee.Number
