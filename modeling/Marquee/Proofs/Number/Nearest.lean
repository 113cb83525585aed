import Marquee.Proofs.Number.Single

/-!
# The Nearest Fraction

In single precision the fractions of some size are the multiples of a unit, a power of two
that depends on the size: 24 bits are kept, or fewer where the unit would fall below the least
one. To round a fraction is to take the nearest multiple of its unit, the even one of two. A
larger fraction is never rounded to a smaller one, also where the unit changes: rounding up
reaches the next power of two at most, and that is a multiple of the next unit.

There is no largest fraction here; what is too large for single precision is left to those who
pack the result.

## Main statements

* `unit_eq` — how a unit is found;
* `nearest_mono` — rounding keeps the order;
* `abs_nearest_sub_le` — rounding moves a fraction by half a unit at most;
* `nearest_of_isSingle` — rounding leaves fractions of single precision alone.
-/

namespace Marquee.Number

/-! ### Natural numbers -/

/-- The natural number nearest to a fraction, the even one of two. -/
def nearestNat (x : ℚ) : ℕ :=
  if x < ⌊x⌋₊ + 1 / 2 then ⌊x⌋₊
  else if ⌊x⌋₊ + 1 / 2 < x then ⌊x⌋₊ + 1
  else ⌊x⌋₊ + ⌊x⌋₊ % 2

/-- A fraction is not rounded below the natural number under it. -/
theorem floor_le_nearestNat (x : ℚ) : ⌊x⌋₊ ≤ nearestNat x := by
  unfold nearestNat
  split_ifs <;> omega

/-- Nor is it rounded above the next one. -/
theorem nearestNat_le (x : ℚ) : nearestNat x ≤ ⌊x⌋₊ + 1 := by
  unfold nearestNat
  split_ifs <;> omega

/-- Two fractions between the same natural numbers are rounded in order. -/
theorem nearestNat_le_of_floor_eq {x y : ℚ} (hxy : x ≤ y) (hfloor : ⌊x⌋₊ = ⌊y⌋₊) :
    nearestNat x ≤ nearestNat y := by
  unfold nearestNat
  rw [hfloor]
  split_ifs
  any_goals omega
  all_goals linarith

/-- Rounding to natural numbers keeps the order. -/
theorem nearestNat_mono : Monotone nearestNat := by
  intro x y hxy
  rcases (Nat.floor_mono hxy).eq_or_lt with hfloor | hfloor
  · exact nearestNat_le_of_floor_eq hxy hfloor
  · exact (nearestNat_le x).trans (hfloor.trans_le (floor_le_nearestNat y))

/-- A natural number is left alone. -/
@[simp]
theorem nearestNat_natCast (n : ℕ) : nearestNat n = n := by
  rw [nearestNat, Nat.floor_natCast, if_pos (by linarith)]

/-- What lies below a natural number is not rounded beyond it. -/
theorem nearestNat_le_of_lt {x : ℚ} {n : ℕ} (h : x < n) : nearestNat x ≤ n := by
  have hmono : nearestNat x ≤ nearestNat n := nearestNat_mono h.le
  rwa [nearestNat_natCast] at hmono

/-- What a natural number does not exceed is not rounded below it. -/
theorem le_nearestNat_of_le {x : ℚ} {n : ℕ} (h : n ≤ x) : n ≤ nearestNat x := by
  have hmono : nearestNat n ≤ nearestNat x := nearestNat_mono h
  rwa [nearestNat_natCast] at hmono

/-- A fraction is half a natural number away from the nearest at most. -/
theorem abs_nearestNat_sub_le {x : ℚ} (hx : 0 ≤ x) : |nearestNat x - x| ≤ 1 / 2 := by
  have hfloor := Nat.floor_le hx
  have hceil := Nat.lt_floor_add_one x
  unfold nearestNat
  split_ifs with below above
  · rw [abs_le]
    constructor <;> linarith
  · rw [abs_le, Nat.cast_add_one]
    constructor <;> linarith
  · have hmod : ((⌊x⌋₊ % 2 : ℕ) : ℚ) ≤ 1 := Nat.cast_le_one.2 (by omega)
    have hnonneg : (0 : ℚ) ≤ (⌊x⌋₊ % 2 : ℕ) := Nat.cast_nonneg _
    rw [abs_le, Nat.cast_add]
    constructor <;> linarith

/-! ### Units -/

/-- The exponent of the unit for fractions of some size. -/
def unit (x : ℚ) : ℤ := max (Int.log 2 x - 23) (-149)

/-- A unit is large enough if 24 bits of it are more than the fraction, and it is no less than the
least one. -/
theorem unit_le_iff {x : ℚ} (hx : 0 < x) {q : ℤ} :
    unit x ≤ q ↔ x < 2 ^ (q + 24) ∧ -149 ≤ q := by
  have hlog := Int.lt_zpow_iff_log_lt (b := 2) (by norm_num) (x := q + 24) hx
  rw [unit, max_le_iff]
  push_cast at hlog
  rw [hlog]
  omega

/-- A unit is small enough if 23 bits of it do not exceed the fraction, or it is the least one. -/
theorem le_unit_iff {x : ℚ} (hx : 0 < x) {q : ℤ} :
    q ≤ unit x ↔ 2 ^ (q + 23) ≤ x ∨ q ≤ -149 := by
  have hlog := Int.zpow_le_iff_le_log (b := 2) (by norm_num) (x := q + 23) hx
  rw [unit, le_max_iff]
  push_cast at hlog
  rw [hlog]
  omega

/-- **A unit is known** by what it does for a fraction: 24 bits are enough, and they are needed
unless the unit is the least one. -/
theorem unit_eq {x : ℚ} (hx : 0 < x) {q : ℤ} (least_le : -149 ≤ q) (lt : x < 2 ^ (q + 24))
    (least : 2 ^ (q + 23) ≤ x ∨ q = -149) : unit x = q :=
  le_antisymm ((unit_le_iff hx).2 ⟨lt, least_le⟩) ((le_unit_iff hx).2 (least.imp_right le_of_eq))

/-- No unit is less than the least one. -/
theorem least_le_unit (x : ℚ) : -149 ≤ unit x := le_max_right _ _

/-- A larger fraction has no smaller unit. -/
theorem unit_mono {x y : ℚ} (hx : 0 < x) (hxy : x ≤ y) : unit x ≤ unit y :=
  max_le_max_right _ (Int.sub_le_sub_right (Int.log_mono_right hx hxy) _)

/-- A multiple of a unit, with a power of two apart. -/
theorem pow_mul_zpow (n : ℕ) (q : ℤ) : ((2 ^ n : ℕ) : ℚ) * 2 ^ q = 2 ^ (q + n) := by
  rw [zpow_add₀ two_ne_zero, zpow_natCast, mul_comm]
  norm_cast

/-! ### Fractions that are not negative -/

/-- The fraction of single precision nearest to one that is not negative. -/
def nearestUp (x : ℚ) : ℚ := nearestNat (x / 2 ^ unit x) * 2 ^ unit x

/-- A fraction that is not negative is not rounded below zero. -/
theorem nearestUp_nonneg (x : ℚ) : 0 ≤ nearestUp x :=
  mul_nonneg (Nat.cast_nonneg _) (zpow_nonneg two_pos.le _)

/-- Zero is left alone. -/
@[simp]
theorem nearestUp_zero : nearestUp 0 = 0 := by
  rw [nearestUp, zero_div, ← Nat.cast_zero, nearestNat_natCast, Nat.cast_zero, zero_mul]

/-- A fraction is rounded to the next power of two at most. -/
theorem nearestUp_le {x : ℚ} (hx : 0 < x) : nearestUp x ≤ 2 ^ (unit x + 24) := by
  have hlt : x / 2 ^ unit x < (2 ^ 24 : ℕ) := by
    rw [div_lt_iff₀ (by positivity), pow_mul_zpow]
    exact ((unit_le_iff hx).1 le_rfl).1
  have hround : nearestNat (x / 2 ^ unit x) ≤ 2 ^ 24 := nearestNat_le_of_lt hlt
  calc nearestUp x ≤ ((2 ^ 24 : ℕ) : ℚ) * 2 ^ unit x := by
        rw [nearestUp]
        gcongr
    _ = 2 ^ (unit x + 24) := pow_mul_zpow 24 (unit x)

/-- With any unit but the least one it is not rounded below the power of two under it. -/
theorem le_nearestUp {x : ℚ} (hx : 0 < x) (large : -149 < unit x) :
    2 ^ (unit x + 23) ≤ nearestUp x := by
  have hle : ((2 ^ 23 : ℕ) : ℚ) ≤ x / 2 ^ unit x := by
    rw [le_div_iff₀ (by positivity), pow_mul_zpow]
    exact ((le_unit_iff hx).1 le_rfl).resolve_right large.not_ge
  have hround : 2 ^ 23 ≤ nearestNat (x / 2 ^ unit x) := le_nearestNat_of_le hle
  calc (2 : ℚ) ^ (unit x + 23) = ((2 ^ 23 : ℕ) : ℚ) * 2 ^ unit x := (pow_mul_zpow 23 (unit x)).symm
    _ ≤ nearestUp x := by
        rw [nearestUp]
        gcongr

/-- **Rounding keeps the order**, in one unit and from one unit to another. -/
theorem nearestUp_mono {x y : ℚ} (hx : 0 ≤ x) (hxy : x ≤ y) : nearestUp x ≤ nearestUp y := by
  rcases hx.eq_or_lt with rfl | hx
  · exact nearestUp_zero.trans_le (nearestUp_nonneg y)
  rcases (unit_mono hx hxy).eq_or_lt with hunit | hunit
  · have hround : nearestNat (x / 2 ^ unit y) ≤ nearestNat (y / 2 ^ unit y) :=
      nearestNat_mono (by gcongr)
    rw [nearestUp, nearestUp, hunit]
    gcongr
  · have large : -149 < unit y := (least_le_unit x).trans_lt hunit
    calc nearestUp x ≤ 2 ^ (unit x + 24) := nearestUp_le hx
      _ ≤ 2 ^ (unit y + 23) := zpow_le_zpow_right₀ one_le_two (by omega)
      _ ≤ nearestUp y := le_nearestUp (hx.trans_le hxy) large

/-- A positive fraction is moved by half its unit at most. -/
theorem abs_nearestUp_sub_le {x : ℚ} (hx : 0 < x) : |nearestUp x - x| ≤ 2 ^ unit x / 2 := by
  have hunit : (0 : ℚ) < 2 ^ unit x := by positivity
  have hround := abs_nearestNat_sub_le (div_nonneg hx.le hunit.le)
  calc |nearestUp x - x| = |nearestNat (x / 2 ^ unit x) - x / 2 ^ unit x| * 2 ^ unit x := by
        rw [← abs_of_pos hunit, ← abs_mul, abs_of_pos hunit, sub_mul,
          div_mul_cancel₀ x hunit.ne', nearestUp]
    _ ≤ 1 / 2 * 2 ^ unit x := by gcongr
    _ = 2 ^ unit x / 2 := by ring

/-- The unit of a fraction that is given by its bits. -/
theorem unit_of_isSingle {m : ℕ} {q : ℤ} (single : IsSingle m q) : unit (m * 2 ^ q) = q := by
  have hpos : 0 < (2 : ℚ) ^ q := by positivity
  have hm : (0 : ℚ) < m := Nat.cast_pos.2 single.pos
  refine unit_eq (mul_pos hm hpos) single.least_le ?_ (single.least.imp_left fun hle => ?_)
  · have hlt : (m : ℚ) < (2 ^ 24 : ℕ) := Nat.cast_lt.2 single.lt
    calc (m : ℚ) * 2 ^ q < ((2 ^ 24 : ℕ) : ℚ) * 2 ^ q := by gcongr
      _ = 2 ^ (q + 24) := pow_mul_zpow 24 q
  · have hle : ((2 ^ 23 : ℕ) : ℚ) ≤ m := Nat.cast_le.2 hle
    calc (2 : ℚ) ^ (q + 23) = ((2 ^ 23 : ℕ) : ℚ) * 2 ^ q := (pow_mul_zpow 23 q).symm
      _ ≤ (m : ℚ) * 2 ^ q := by gcongr

/-- A positive fraction of single precision is left alone. -/
theorem nearestUp_of_isSingle {m : ℕ} {q : ℤ} (single : IsSingle m q) :
    nearestUp (m * 2 ^ q) = m * 2 ^ q := by
  rw [nearestUp, unit_of_isSingle single, mul_div_cancel_right₀ _ (by positivity),
    nearestNat_natCast]

/-! ### All fractions -/

/-- The fraction of single precision nearest to a fraction. -/
def nearest (x : ℚ) : ℚ := if 0 ≤ x then nearestUp x else -nearestUp (-x)

/-- A fraction that is not negative is rounded as one. -/
theorem nearest_of_nonneg {x : ℚ} (hx : 0 ≤ x) : nearest x = nearestUp x := if_pos hx

/-- A fraction that is not positive is rounded like its opposite. -/
theorem nearest_of_nonpos {x : ℚ} (hx : x ≤ 0) : nearest x = -nearestUp (-x) := by
  rcases hx.eq_or_lt with rfl | hx
  · simp [nearest]
  · exact if_neg hx.not_ge

/-- Zero is left alone, with either sign. -/
@[simp]
theorem nearest_zero : nearest 0 = 0 := by
  rw [nearest_of_nonneg le_rfl, nearestUp_zero]

/-- Rounding does not favor a sign. -/
theorem nearest_neg (x : ℚ) : nearest (-x) = -nearest x := by
  rcases le_total 0 x with hx | hx
  · rw [nearest_of_nonneg hx, nearest_of_nonpos (neg_nonpos.2 hx), neg_neg]
  · rw [nearest_of_nonpos hx, nearest_of_nonneg (neg_nonneg.2 hx), neg_neg]

/-- What is not negative is rounded to what is not negative. -/
theorem nearest_nonneg {x : ℚ} (hx : 0 ≤ x) : 0 ≤ nearest x := by
  rw [nearest_of_nonneg hx]
  exact nearestUp_nonneg x

/-- **Rounding keeps the order.** -/
theorem nearest_mono : Monotone nearest := by
  intro x y hxy
  rcases le_total 0 x with hx | hx
  · rw [nearest_of_nonneg hx, nearest_of_nonneg (hx.trans hxy)]
    exact nearestUp_mono hx hxy
  rw [nearest_of_nonpos hx]
  rcases le_total 0 y with hy | hy
  · rw [nearest_of_nonneg hy]
    exact (neg_nonpos.2 (nearestUp_nonneg _)).trans (nearestUp_nonneg _)
  · rw [nearest_of_nonpos hy]
    exact neg_le_neg (nearestUp_mono (neg_nonneg.2 hy) (neg_le_neg hxy))

/-- A fraction that is not rounded beyond another has no larger unit. -/
theorem unit_le_of_nearestUp_le {x w : ℚ} (hx : 0 < x) (hw : 0 < w) (hle : nearestUp x ≤ w) :
    unit x ≤ unit w := by
  rcases (least_le_unit x).eq_or_lt with hleast | hlarge
  · exact hleast ▸ least_le_unit w
  · exact (le_unit_iff hw).2 (.inl ((le_nearestUp hx hlarge).trans hle))

/-- **Rounding moves a fraction** by half a unit at most, also by half the unit of whatever it is
not rounded beyond. -/
theorem abs_nearest_sub_le {x w : ℚ} (hw : 0 < w) (hle : |nearest x| ≤ w) :
    |nearest x - x| ≤ 2 ^ unit w / 2 := by
  wlog hx : 0 ≤ x generalizing x
  · have hneg := this (x := -x) (by rwa [nearest_neg, abs_neg]) (by linarith)
    rwa [nearest_neg, neg_sub_neg, abs_sub_comm] at hneg
  rw [nearest_of_nonneg hx] at hle ⊢
  rcases hx.eq_or_lt with rfl | hpos
  · rw [nearestUp_zero, sub_zero, abs_zero]
    positivity
  have hunit := unit_le_of_nearestUp_le hpos hw ((le_abs_self _).trans hle)
  calc |nearestUp x - x| ≤ 2 ^ unit x / 2 := abs_nearestUp_sub_le hpos
    _ ≤ 2 ^ unit w / 2 := by gcongr; exact one_le_two

/-- Fractions of single precision are left alone. -/
theorem nearest_of_isSingle {m : ℕ} {q : ℤ} (single : IsSingle m q) :
    nearest (m * 2 ^ q) = m * 2 ^ q := by
  rw [nearest_of_nonneg (by positivity), nearestUp_of_isSingle single]

end Marquee.Number
