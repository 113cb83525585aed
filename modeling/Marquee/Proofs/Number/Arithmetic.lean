import Marquee.Proofs.Number.Rounding

/-!
# Products and Sums

Whether a product, a sum or a difference is finite, and what it is worth, depends on what its
parts are worth: the exact result is rounded to the nearest fraction, and it must stay below the
bound of single precision. The sign of a zero does not matter to either.

## Main statements

* `isFinite_mul_iff`, `isFinite_add_iff` — which results are finite;
* `value_mul`, `value_add`, `value_sub` — what finite results are worth.
-/

namespace Marquee.Number

open Float.Model (Format UnpackedFloat)
open Float.Model.UnpackedFloat

/-- A fraction that is not too large once it is rounded. -/
def InRange (x : ℚ) : Prop := |nearest x| < 2 ^ (128 : ℤ)

/-! ### The bound -/

/-- What lies between two fractions is not too large if neither of them is. -/
theorem inRange_of_between {q r w : ℚ} (hq : InRange q) (hr : InRange r) (hqw : q ≤ w)
    (hwr : w ≤ r) : InRange w := by
  have hlower := nearest_mono hqw
  have hupper := nearest_mono hwr
  exact abs_lt.2 ⟨(abs_lt.1 hq).1.trans_le hlower, hupper.trans_lt (abs_lt.1 hr).2⟩

/-- The same for fractions in whichever order. -/
theorem inRange_of_mem_uIcc {q r w : ℚ} (hq : InRange q) (hr : InRange r)
    (hw : w ∈ Set.uIcc q r) : InRange w := by
  rcases Set.mem_uIcc.1 hw with ⟨hqw, hwr⟩ | ⟨hrw, hwq⟩
  · exact inRange_of_between hq hr hqw hwr
  · exact inRange_of_between hr hq hrw hwq

/-- A sign does not change the magnitude. -/
theorem abs_signed (s : Sign) {x : ℚ} (hx : 0 ≤ x) : |signed s x| = x := by
  cases s with
  | negative => exact (abs_neg x).trans (abs_of_nonneg hx)
  | positive => exact abs_of_nonneg hx

/-- With a small exponent a number keeps to its bits. -/
theorem isFinite_unpack_pack_of_le {s : Sign} {m : ℕ} {q : ℤ} {hm : 0 < m}
    (proper : IsProper (.finite s m q hm)) (small : q ≤ 104) :
    (unpack .binary32 (pack .binary32 (.finite s m q hm))).isFinite := by
  rcases le_or_gt (2 ^ 23) m with normal | subnormal
  · rw [unpack_pack_normal s proper small normal]
    rfl
  · obtain rfl : q = -149 := proper.least.resolve_left subnormal.not_ge
    rw [unpack_pack_subnormal s hm subnormal]
    rfl

/-- A number is too large for its bits if what it is worth is. -/
theorem isFinite_unpack_pack_iff {a : UnpackedFloat} (ha : IsProper a) (fa : a.isFinite) :
    (unpack .binary32 (pack .binary32 a)).isFinite ↔ |worth a| < 2 ^ (128 : ℤ) := by
  rcases a with s | - | s | ⟨s, m, q, hm⟩
  · cases fa
  · cases fa
  · have hworth : worth (.zero s) = 0 := rfl
    have hzero : |worth (.zero s)| < 2 ^ (128 : ℤ) := by
      rw [hworth, abs_zero]
      positivity
    rw [show pack .binary32 (.zero s) = packedZero .binary32 s from rfl, unpack_packedZero]
    exact iff_of_true rfl hzero
  · have hworth : |worth (.finite s m q hm)| = m * 2 ^ q := abs_signed s (by positivity)
    rw [hworth]
    rcases lt_or_ge 104 q with large | small
    · rw [pack_of_large hm large, unpack_packedInfinity]
      have hm' : ((2 ^ 23 : ℕ) : ℚ) ≤ m := Nat.cast_le.2 (ha.least.resolve_right (by omega))
      refine iff_of_false Bool.false_ne_true (not_lt.2 ?_)
      calc (2 : ℚ) ^ (128 : ℤ) ≤ 2 ^ (q + 23) := zpow_le_zpow_right₀ one_le_two (by omega)
        _ = ((2 ^ 23 : ℕ) : ℚ) * 2 ^ q := (pow_mul_zpow 23 q).symm
        _ ≤ m * 2 ^ q := by gcongr
    · have hm' : (m : ℚ) < (2 ^ 24 : ℕ) := Nat.cast_lt.2 ha.lt
      refine iff_of_true (isFinite_unpack_pack_of_le ha small) ?_
      calc (m : ℚ) * 2 ^ q < ((2 ^ 24 : ℕ) : ℚ) * 2 ^ q := by gcongr
        _ = 2 ^ (q + 24) := pow_mul_zpow 24 q
        _ ≤ 2 ^ (128 : ℤ) := zpow_le_zpow_right₀ one_le_two (by omega)

/-- **Packing what was unpacked** gives it back. -/
theorem unpack_pack_toModel (x : Float32) :
    unpack .binary32 (pack .binary32 x.toModel.unpack) = x.toModel.unpack := by
  have proper := isProper_toModel x
  have bounded : IsBounded x.toModel.unpack := isBounded_unpack _
  generalize x.toModel.unpack = a at proper bounded ⊢
  rcases a with s | - | s | ⟨s, m, q, hm⟩
  · exact unpack_packedInfinity s
  · exact unpack_packedNaN
  · exact unpack_packedZero
  · exact unpack_pack proper (isFinite_unpack_pack_of_le proper bounded)

/-! ### Results -/

section Rounds

variable {a : UnpackedFloat} {r : Float32} {x : ℚ}

/-- A number packed from a rounded fraction is finite if the fraction is not too large. -/
theorem Rounds.isFinite_iff (rounds : Rounds a x)
    (hr : r.toModel.unpack = unpack .binary32 (pack .binary32 a)) : r.isFinite ↔ InRange x := by
  rw [InRange, ← rounds.worth_eq, ← isFinite_unpack_pack_iff rounds.proper rounds.finite, ← hr]
  exact Iff.rfl

/-- If it is finite, it is worth the nearest fraction. -/
theorem Rounds.value_eq (rounds : Rounds a x)
    (hr : r.toModel.unpack = unpack .binary32 (pack .binary32 a)) (finite : r.isFinite) :
    value r = nearest x := by
  have fits : (unpack .binary32 (pack .binary32 a)).isFinite := hr ▸ finite
  rw [value, hr, unpack_pack rounds.proper fits, rounds.worth_eq]

/-- What a number is worth is rounded already. -/
theorem nearest_value (hr : r.isFinite) : nearest (value r) = value r :=
  (rounds_worth (isProper_toModel r) hr).worth_eq.symm

/-- Zero is not too large. -/
theorem inRange_zero : InRange 0 := by
  rw [InRange, nearest_zero, abs_zero]
  positivity

/-- What a finite number is worth is not too large. -/
theorem inRange_value (hr : r.isFinite) : InRange (value r) :=
  ((rounds_worth (isProper_toModel r) hr).isFinite_iff (unpack_pack_toModel r).symm).1 hr

end Rounds

section Operations

variable {x y : Float32}

/-- A product is unpacked, multiplied and packed. -/
theorem unpack_mul (x y : Float32) : (x * y).toModel.unpack =
    unpack .binary32 (pack .binary32 (mul .binary32 x.toModel.unpack y.toModel.unpack)) := rfl

/-- A sum is unpacked, added and packed. -/
theorem unpack_add (x y : Float32) : (x + y).toModel.unpack =
    unpack .binary32 (pack .binary32 (add .binary32 x.toModel.unpack y.toModel.unpack)) := rfl

/-- A difference is unpacked, subtracted and packed. -/
theorem unpack_sub (x y : Float32) : (x - y).toModel.unpack =
    unpack .binary32 (pack .binary32 (sub .binary32 x.toModel.unpack y.toModel.unpack)) := rfl

/-- **Products** are finite within the bound. -/
theorem isFinite_mul_iff (hx : x.isFinite) (hy : y.isFinite) :
    (x * y).isFinite ↔ InRange (value x * value y) :=
  (rounds_mul (isProper_toModel x) (isProper_toModel y) hx hy).isFinite_iff (unpack_mul x y)

/-- **Sums** are finite within the bound. -/
theorem isFinite_add_iff (hx : x.isFinite) (hy : y.isFinite) :
    (x + y).isFinite ↔ InRange (value x + value y) :=
  (rounds_add (isProper_toModel x) (isProper_toModel y) hx hy).isFinite_iff (unpack_add x y)

/-- **What a product is worth**, if it is finite. -/
theorem value_mul (hx : x.isFinite) (hy : y.isFinite) (finite : (x * y).isFinite) :
    value (x * y) = nearest (value x * value y) :=
  (rounds_mul (isProper_toModel x) (isProper_toModel y) hx hy).value_eq (unpack_mul x y) finite

/-- **What a sum is worth**, if it is finite. -/
theorem value_add (hx : x.isFinite) (hy : y.isFinite) (finite : (x + y).isFinite) :
    value (x + y) = nearest (value x + value y) :=
  (rounds_add (isProper_toModel x) (isProper_toModel y) hx hy).value_eq (unpack_add x y) finite

/-- **What a difference is worth**, if it is finite. -/
theorem value_sub (hx : x.isFinite) (hy : y.isFinite) (finite : (x - y).isFinite) :
    value (x - y) = nearest (value x - value y) :=
  (rounds_sub (isProper_toModel x) (isProper_toModel y) hx hy).value_eq (unpack_sub x y) finite

/-- What is not finite before it is packed is not finite after. -/
theorem isFinite_of_isFinite_unpack_pack {a : UnpackedFloat}
    (h : (unpack .binary32 (pack .binary32 a)).isFinite) : a.isFinite := by
  rcases a with s | - | s | ⟨s, m, q, hm⟩
  · exact (congrArg UnpackedFloat.isFinite (unpack_packedInfinity s)).symm.trans h
  · exact (congrArg UnpackedFloat.isFinite unpack_packedNaN).symm.trans h
  · rfl
  · rfl

/-- What is undefined before it is packed is undefined after. -/
theorem isNaN_of_isNaN_unpack_pack {a : UnpackedFloat}
    (h : (unpack .binary32 (pack .binary32 a)).isNaN = false) : a.isNaN = false := by
  rcases a with s | - | s | ⟨s, m, q, hm⟩
  · rfl
  · exact (congrArg UnpackedFloat.isNaN unpack_packedNaN).symm.trans h
  · rfl
  · rfl

/-- The parts of a finite product are finite. -/
theorem isFinite_of_mul (h : (x * y).isFinite) : x.isFinite ∧ y.isFinite := by
  have hmul := isFinite_of_isFinite_unpack_pack h
  change x.toModel.unpack.isFinite ∧ y.toModel.unpack.isFinite
  generalize x.toModel.unpack = a at hmul ⊢
  generalize y.toModel.unpack = b at hmul ⊢
  cases a <;> cases b <;> first | exact ⟨rfl, rfl⟩ | cases hmul

/-- The parts of a finite sum are finite, before they are packed. -/
theorem isFinite_of_unpacked_add {a b : UnpackedFloat} (hadd : (add .binary32 a b).isFinite) :
    a.isFinite ∧ b.isFinite := by
  rcases a with s | - | s | ⟨s, m, p, hm⟩
  · rcases b with t | - | t | ⟨t, n, q, hn⟩
    · rw [add] at hadd
      split at hadd <;> cases hadd
    all_goals cases hadd
  · cases hadd
  all_goals
    rcases b with t | - | t | ⟨t, n, q, hn⟩
    · cases hadd
    · cases hadd
    · exact ⟨rfl, rfl⟩
    · exact ⟨rfl, rfl⟩

/-- The parts of a finite sum are finite. -/
theorem isFinite_of_add (h : (x + y).isFinite) : x.isFinite ∧ y.isFinite :=
  isFinite_of_unpacked_add (isFinite_of_isFinite_unpack_pack h)

/-- So are those of a finite difference. -/
theorem isFinite_of_sub (h : (x - y).isFinite) : x.isFinite ∧ y.isFinite := by
  have hsub : (sub .binary32 x.toModel.unpack y.toModel.unpack).isFinite :=
    isFinite_of_isFinite_unpack_pack h
  rw [sub_eq_add] at hsub
  obtain ⟨hx, hneg⟩ := isFinite_of_unpacked_add hsub
  refine ⟨hx, ?_⟩
  change y.toModel.unpack.isFinite
  generalize y.toModel.unpack = b at hneg ⊢
  cases b <;> exact hneg

end Operations

/-! ### The infinite -/

section Infinite

variable {x : Float32}

/-- Infinity unpacks to the positive infinity. -/
theorem unpack_infinity : (1 / 0 : Float32).toModel.unpack = .infinity .positive := by
  rfl

/-- Its negative unpacks to the negative one. -/
theorem unpack_neg_infinity : (-(1 / 0) : Float32).toModel.unpack = .infinity .negative := by
  rfl

/-- What is finite lies below infinity. -/
theorem lt_infinity (hx : x.isFinite) : x < 1 / 0 := by
  have hfinite : x.toModel.unpack.isFinite := hx
  rw [lt_iff_unpack, unpack_infinity]
  generalize x.toModel.unpack = a at hfinite ⊢
  cases a <;> first | rfl | cases hfinite

/-- It lies above the negative one. -/
theorem neg_infinity_lt (hx : x.isFinite) : -(1 / 0) < x := by
  have hfinite : x.toModel.unpack.isFinite := hx
  rw [lt_iff_unpack, unpack_neg_infinity]
  generalize x.toModel.unpack = a at hfinite ⊢
  cases a <;> first | rfl | cases hfinite

/-- No finite number exceeds infinity. -/
theorem le_infinity (hx : x.isFinite) : x ≤ 1 / 0 := by
  have hfinite : x.toModel.unpack.isFinite := hx
  rw [le_iff_unpack, unpack_infinity]
  generalize x.toModel.unpack = a at hfinite ⊢
  cases a <;> first | rfl | cases hfinite

/-- Infinity does not lie below a finite number. -/
theorem not_infinity_le (hx : x.isFinite) : ¬ 1 / 0 ≤ x := by
  have hfinite : x.toModel.unpack.isFinite := hx
  rw [le_iff_unpack, unpack_infinity]
  generalize x.toModel.unpack = a at hfinite ⊢
  cases a <;> first | exact Bool.false_ne_true | cases hfinite

/-- The negative infinity lies below all finite numbers. -/
theorem neg_infinity_le (hx : x.isFinite) : -(1 / 0) ≤ x := by
  have hfinite : x.toModel.unpack.isFinite := hx
  rw [le_iff_unpack, unpack_neg_infinity]
  generalize x.toModel.unpack = a at hfinite ⊢
  cases a <;> first | rfl | cases hfinite

/-- What lies between finite numbers is finite. -/
theorem isFinite_of_between {y z : Float32} (hx : x.isFinite) (hz : z.isFinite) (hxy : x ≤ y)
    (hyz : y ≤ z) : y.isFinite := by
  change x.toModel.unpack.isFinite at hx
  change z.toModel.unpack.isFinite at hz
  change y.toModel.unpack.isFinite
  rw [le_iff_unpack] at hxy hyz
  generalize x.toModel.unpack = a at hx hxy
  generalize y.toModel.unpack = b at hxy hyz ⊢
  generalize z.toModel.unpack = c at hz hyz
  rcases b with (_ | _) | - | s | ⟨s, m, p, hm⟩
  · cases a <;> first | exact absurd hxy Bool.false_ne_true | cases hx
  · cases c <;> first | exact absurd hyz Bool.false_ne_true | cases hz
  · cases a <;> exact absurd hxy Bool.false_ne_true
  · rfl
  · rfl

/-- A finite number is not undefined. -/
theorem isNaN_of_isFinite (hx : x.isFinite) : x.isNaN = false := by
  change x.toModel.unpack.isFinite at hx
  change x.toModel.unpack.isNaN = false
  generalize x.toModel.unpack = a at hx ⊢
  cases a <;> first | rfl | cases hx

end Infinite

end Marquee.Number
