import Marquee.Proofs.Number.Nearest

/-!
# What a Number Is Worth

A single-precision number that is neither infinite nor undefined stands for a fraction. Two of
them are compared as their fractions are, and two that stand for one fraction differ in the
sign of a zero at most.

## Main statements

* `compare_single` — fractions of single precision, compared by exponent and significand;
* `compare_eq` — numbers are compared as what they are worth;
* `lt_iff_value`, `beq_iff_value` — the order and the equality of numbers.
-/

namespace Marquee.Number

open Float.Model (Format UnpackedFloat)
open Float.Model.UnpackedFloat

/-- A fraction with a sign. -/
def signed : Sign → ℚ → ℚ
  | .negative, x => -x
  | .positive, x => x

/-- The fraction that an unpacked number stands for; zero if it stands for none. -/
def worth : UnpackedFloat → ℚ
  | .finite s m q _ => signed s (m * 2 ^ q)
  | _ => 0

/-- The fraction that a number stands for; zero if it stands for none. -/
def value (x : Float32) : ℚ := worth x.toModel.unpack

/-- Zero is worth zero. -/
theorem value_zero : value 0 = 0 := rfl

/-- Every number unpacks to a proper form. -/
theorem isProper_toModel (x : Float32) : IsProper x.toModel.unpack :=
  isProper_unpack _

/-! ### Comparing fractions -/

section Compare

variable {m n : ℕ} {p q : ℤ}

/-- A smaller exponent means a smaller fraction. -/
theorem lt_of_exponent_lt (hm : IsSingle m p) (hn : IsSingle n q) (hlt : p < q) :
    (m : ℚ) * 2 ^ p < n * 2 ^ q := by
  by_contra hle
  have hpos : (0 : ℚ) < n * 2 ^ q := mul_pos (Nat.cast_pos.2 hn.pos) (by positivity)
  have hunit := unit_mono hpos (not_lt.1 hle)
  rw [unit_of_isSingle hm, unit_of_isSingle hn] at hunit
  omega

/-- **Fractions of single precision** are compared by their exponents first. -/
theorem compare_single (hm : IsSingle m p) (hn : IsSingle n q) :
    (compare p q).then (compare m n) = compare ((m : ℚ) * 2 ^ p) (n * 2 ^ q) := by
  rcases lt_trichotomy p q with hlt | rfl | hgt
  · rw [compare_lt_iff_lt.2 hlt, compare_lt_iff_lt.2 (lt_of_exponent_lt hm hn hlt)]
    rfl
  · have hpos : (0 : ℚ) < 2 ^ p := by positivity
    rw [compare_eq_iff_eq.2 rfl, Ordering.eq_then]
    rcases lt_trichotomy m n with hlt | rfl | hgt
    · rw [compare_lt_iff_lt.2 hlt, eq_comm, compare_lt_iff_lt]
      exact mul_lt_mul_of_pos_right (Nat.cast_lt.2 hlt) hpos
    · rw [compare_eq_iff_eq.2 rfl, compare_eq_iff_eq.2 rfl]
    · rw [compare_gt_iff_gt.2 hgt, eq_comm, compare_gt_iff_gt]
      exact mul_lt_mul_of_pos_right (Nat.cast_lt.2 hgt) hpos
  · rw [compare_gt_iff_gt.2 hgt, compare_gt_iff_gt.2 (lt_of_exponent_lt hn hm hgt)]
    rfl

end Compare

/-- Opposite fractions are compared the other way. -/
theorem compare_neg_neg (x y : ℚ) : compare (-x) (-y) = (compare x y).swap := by
  rcases lt_trichotomy x y with hlt | rfl | hgt
  · rw [compare_lt_iff_lt.2 hlt, compare_gt_iff_gt.2 (neg_lt_neg hlt)]
    rfl
  · rw [compare_eq_iff_eq.2 rfl, compare_eq_iff_eq.2 rfl]
    rfl
  · rw [compare_gt_iff_gt.2 hgt, compare_lt_iff_lt.2 (neg_lt_neg hgt)]
    rfl

/-! ### Comparing numbers -/

/-- **Numbers are compared** as what they are worth. -/
theorem compare_eq {a b : UnpackedFloat} (ha : IsProper a) (hb : IsProper b)
    (fa : a.isFinite) (fb : b.isFinite) : a.compare b = some (compare (worth a) (worth b)) := by
  have pos : ∀ {m : ℕ} (q : ℤ), 0 < m → (0 : ℚ) < m * 2 ^ q := fun q hm =>
    mul_pos (Nat.cast_pos.2 hm) (by positivity)
  rcases a with s | - | s | ⟨s, m, p, hm⟩
  · cases fa
  · cases fa
  · rcases b with t | - | t | ⟨t, n, q, hn⟩
    · cases fb
    · cases fb
    · rfl
    · cases t with
      | negative => exact congrArg some (compare_gt_iff_gt.2 (neg_neg_of_pos (pos q hn))).symm
      | positive => exact congrArg some (compare_lt_iff_lt.2 (pos q hn)).symm
  · rcases b with t | - | t | ⟨t, n, q, hn⟩
    · cases fb
    · cases fb
    · cases s with
      | negative => exact congrArg some (compare_lt_iff_lt.2 (neg_neg_of_pos (pos p hm))).symm
      | positive => exact congrArg some (compare_gt_iff_gt.2 (pos p hm)).symm
    · cases s with
      | negative =>
        cases t with
        | negative =>
          refine congrArg some ?_
          rw [compare_single ha hb, ← compare_neg_neg]
          rfl
        | positive =>
          have hlt := (neg_neg_of_pos (pos p hm)).trans (pos q hn)
          exact congrArg some (compare_lt_iff_lt.2 hlt).symm
      | positive =>
        cases t with
        | negative =>
          have hgt := (neg_neg_of_pos (pos q hn)).trans (pos p hm)
          exact congrArg some (compare_gt_iff_gt.2 hgt).symm
        | positive => exact congrArg some (compare_single ha hb)

section Order

variable {x y : Float32}

/-- Numbers are compared as what they unpack to. -/
theorem lt_iff_unpack (x y : Float32) : x < y ↔ x.toModel.unpack.lt y.toModel.unpack :=
  decide_eq_true_iff

/-- The same, where they may be equal. -/
theorem le_iff_unpack (x y : Float32) : x ≤ y ↔ x.toModel.unpack.le y.toModel.unpack :=
  decide_eq_true_iff

/-- **Finite numbers are in order** as the fractions that they are worth. -/
theorem lt_iff_value (hx : x.isFinite) (hy : y.isFinite) : x < y ↔ value x < value y := by
  have hcompare := compare_eq (isProper_toModel x) (isProper_toModel y) hx hy
  rw [lt_iff_unpack, Float.Model.UnpackedFloat.lt, hcompare, beq_iff_eq, Option.some_inj,
    compare_lt_iff_lt, value, value]

/-- The same, where they may be equal. -/
theorem le_iff_value (hx : x.isFinite) (hy : y.isFinite) : x ≤ y ↔ value x ≤ value y := by
  have hcompare := compare_eq (isProper_toModel x) (isProper_toModel y) hx hy
  rw [le_iff_unpack, Float.Model.UnpackedFloat.le, hcompare, Option.any_some, value, value]
  exact Ordering.isLE_iff_ne_gt.trans compare_le_iff_le

/-- Finite numbers are equal if they are worth the same, whatever the sign of a zero. -/
theorem beq_iff_value (hx : x.isFinite) (hy : y.isFinite) : x == y ↔ value x = value y := by
  have hcompare := compare_eq (isProper_toModel x) (isProper_toModel y) hx hy
  have hbeq : x == y ↔ x.toModel.unpack.beq y.toModel.unpack := Iff.rfl
  rw [hbeq, Float.Model.UnpackedFloat.beq, hcompare, beq_iff_eq, Option.some_inj,
    compare_eq_iff_eq, value, value]

end Order

end Marquee.Number
