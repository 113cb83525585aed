import Marquee.Number.Layout
import Mathlib

/-!
# Single-Precision Fractions

A single-precision number is its bits, and arithmetic looks at them unpacked: a sign, a
significand and an exponent. The significand has 24 bits, or fewer if the exponent is the
least one, so that no fraction has two forms.

## Main statements

* `isProper_unpack`, `isBounded_unpack` — the significands and exponents that come of unpacking;
* `unpack_injective` — a number is what it unpacks to.
-/

namespace Marquee.Number

open Float.Model (Format UnpackedFloat)
open Float.Model.UnpackedFloat

/-- The significands and exponents of positive single-precision fractions. -/
structure IsSingle (m : Nat) (q : Int) : Prop where
  pos : 0 < m
  lt : m < 2 ^ 24
  least_le : -149 ≤ q
  /-- Only with the least exponent does a significand have a leading zero. -/
  least : 2 ^ 23 ≤ m ∨ q = -149

/-- The fractions of single precision, and all that is no fraction. -/
def IsProper : UnpackedFloat → Prop
  | .finite _ m q _ => IsSingle m q
  | _ => True

/-- With any exponent but the least one, a leading one is not among the bits. -/
theorem toNat_leading_append (v : BitVec 23) : (1#1 ++ v).toNat = 2 ^ 23 + v.toNat := by
  rw [BitVec.toNat_append, ← Nat.shiftLeft_add_eq_or_of_lt v.isLt]
  rfl

/-- **What comes of unpacking** has its proper form. -/
theorem isProper_unpack (b : BitVec Format.binary32.numBits) : IsProper (unpack .binary32 b) := by
  fun_cases unpack .binary32 b with
  | case1 | case2 | case3 => exact trivial
  | case4 v e q _ sign high low nonzero =>
    have hv : v.toNat < 2 ^ 23 := v.isLt
    have hpos : 0 < v.toNat := Nat.pos_of_ne_zero fun h => nonzero (BitVec.eq_of_toNat_eq h)
    have hq : q + 1 = -149 := by
      rw [show q = (e.toNat : Int) - (Format.binary32.exponentBias + 23) from rfl, low]
      rfl
    exact ⟨hpos, by omega, by omega, .inr hq⟩
  | case5 v e q _ sign high low =>
    have hv : v.toNat < 2 ^ 23 := v.isLt
    have he : e.toNat ≠ 0 := fun h => low (BitVec.eq_of_toNat_eq h)
    have hq : q = e.toNat - (127 + 23) := rfl
    have hsum : (1#1 ++ v).toNat = 2 ^ 23 + v.toNat := toNat_leading_append v
    exact ⟨by omega, by omega, by omega, .inl (by omega)⟩

/-- The numbers whose exponent fits its bits. -/
def IsBounded : UnpackedFloat → Prop
  | .finite _ _ q _ => q ≤ 104
  | _ => True

/-- The exponent that is unpacked fits its bits. -/
theorem isBounded_unpack (b : BitVec Format.binary32.numBits) :
    IsBounded (unpack .binary32 b) := by
  fun_cases unpack .binary32 b with
  | case1 | case2 | case3 => exact trivial
  | case4 v e q _ sign high low nonzero =>
    have hq : q + 1 = -149 := by
      rw [show q = (e.toNat : Int) - (Format.binary32.exponentBias + 23) from rfl, low]
      rfl
    exact hq.trans_le (by decide)
  | case5 v e q _ sign high low =>
    have he : e.toNat ≠ 255 := fun h => high (BitVec.eq_of_toNat_eq h)
    have hlt : e.toNat < 2 ^ 8 := e.isLt
    have hq : q = e.toNat - (127 + 23) := rfl
    have hle : q ≤ 104 := by omega
    exact hle

/-- **A number is what it unpacks to.** -/
theorem unpack_injective {x y : Float32} (h : x.toModel.unpack = y.toModel.unpack) : x = y := by
  obtain ⟨⟨bits, valid⟩⟩ := x
  obtain ⟨⟨bits', valid'⟩⟩ := y
  obtain rfl : bits = bits' := UInt32.toBitVec_inj.1 ((unpack_inj_of_valid valid valid').1 h)
  rfl

end Marquee.Number
