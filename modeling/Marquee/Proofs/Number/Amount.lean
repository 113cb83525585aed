import Marquee.Proofs.Number.Arithmetic

/-!
# Numbers That Are Not Negative

A number that is not negative stands for a fraction or is infinite. Infinity amounts to more
than any fraction, and with it the order of such numbers is the order of what they amount to.
Their sums are never undefined: the exact sum is rounded, and where it is too large it becomes
infinite. So rounding keeps the order without a bound on the numbers.

A count of something is a number that is not negative. It is finite as long as the count is a
machine word.

## Main statements

* `le_iff_amount`, `amount_add` — the order and the sums of numbers that are not negative;
* `le_add`, `add_le_add_of_le` — sums grow with their parts;
* `abs_value_add_sub_le` — how much a sum is off;
* `zero_le_sub` — the difference of two numbers in order;
* `ofNat_word` — counts are finite and not negative.
-/

namespace Marquee.Number

open Float.Model (Format UnpackedFloat)
open Float.Model.UnpackedFloat

/-! ### Amounts -/

/-- What a number that is not negative amounts to: a fraction, or more than any fraction. -/
def amount (x : Float32) : WithTop ℚ := if x.isFinite then (value x : ℚ) else ⊤

/-- The nearest fraction, unless it is too large. -/
def rounded : WithTop ℚ → WithTop ℚ
  | (q : ℚ) => if nearest q < 2 ^ (128 : ℤ) then (nearest q : ℚ) else ⊤
  | ⊤ => ⊤

/-- A fraction is rounded, and counts as infinite if that is too large. -/
theorem rounded_coe (q : ℚ) :
    rounded q = if nearest q < 2 ^ (128 : ℤ) then (nearest q : WithTop ℚ) else ⊤ := rfl

/-- **Rounding keeps the order**, also beyond the fractions. -/
theorem rounded_mono : Monotone rounded := by
  intro a b hab
  cases b with
  | top => exact le_top
  | coe r =>
    cases a with
    | top => exact absurd hab (WithTop.not_top_le_coe r)
    | coe q =>
      have hle := nearest_mono (WithTop.coe_le_coe.1 hab)
      rw [rounded_coe, rounded_coe]
      split_ifs with hq hr hr
      · exact WithTop.coe_le_coe.2 hle
      · exact le_top
      · exact absurd (hle.trans_lt hr) hq
      · exact le_rfl

section Amount

variable {x y z : Float32}

/-- A finite number amounts to what it is worth. -/
theorem amount_of_isFinite (hx : x.isFinite) : amount x = (value x : ℚ) := if_pos hx

/-- Infinity amounts to more than any fraction. -/
theorem amount_infinity : amount (1 / 0) = ⊤ := rfl

/-- **A number that is not negative** is infinite or stands for a fraction. -/
theorem nonneg_iff : 0 ≤ x ↔ x = 1 / 0 ∨ (x.isFinite ∧ 0 ≤ value x) := by
  by_cases finite : x.isFinite
  · have hne : x ≠ 1 / 0 := by
      rintro rfl
      exact absurd finite (by decide)
    rw [le_iff_value (by decide) finite, value_zero]
    exact ⟨fun h => .inr ⟨finite, h⟩, fun h => (h.resolve_left hne).2⟩
  · have hzero : (0 : Float32).toModel.unpack = .zero .positive := by rfl
    rw [le_iff_unpack, hzero]
    constructor
    · intro h
      refine .inl (unpack_injective ?_)
      rw [unpack_infinity]
      change ¬ x.toModel.unpack.isFinite at finite
      generalize x.toModel.unpack = a at h finite
      rcases a with s | - | s | ⟨s, m, p, hm⟩
      · cases s with
        | negative => cases h
        | positive => rfl
      · cases h
      all_goals exact absurd rfl finite
    · rintro (rfl | ⟨h, -⟩)
      · rfl
      · exact absurd h finite

/-- A finite number that is not negative is worth no negative fraction. -/
theorem zero_le_value (finite : x.isFinite) (hx : 0 ≤ x) : 0 ≤ value x :=
  (le_iff_value (by decide) finite).1 hx

/-- Nor does one that is infinite amount to a negative one. -/
theorem zero_le_amount (hx : 0 ≤ x) : 0 ≤ amount x := by
  rcases nonneg_iff.1 hx with rfl | ⟨finite, hvalue⟩
  · exact le_top
  · rw [amount_of_isFinite finite]
    exact WithTop.coe_nonneg.2 hvalue

/-- **Numbers that are not negative** are compared as what they amount to. -/
theorem le_iff_amount (hx : 0 ≤ x) (hy : 0 ≤ y) : x ≤ y ↔ amount x ≤ amount y := by
  rcases nonneg_iff.1 hx with rfl | ⟨fx, -⟩ <;> rcases nonneg_iff.1 hy with rfl | ⟨fy, -⟩
  · exact iff_of_true (by decide) le_rfl
  · rw [amount_infinity, amount_of_isFinite fy]
    exact iff_of_false (not_infinity_le fy) (WithTop.not_top_le_coe _)
  · exact iff_of_true (le_infinity fx) le_top
  · rw [amount_of_isFinite fx, amount_of_isFinite fy, WithTop.coe_le_coe, le_iff_value fx fy]

/-- An undefined number is not even equal to itself. -/
theorem le_refl_of_nonneg (hx : 0 ≤ x) : x ≤ x := (le_iff_amount hx hx).2 le_rfl

/-- Numbers that are not negative are in order like what they amount to. -/
theorem le_trans_of_nonneg (hx : 0 ≤ x) (hy : 0 ≤ y) (hz : 0 ≤ z) (hxy : x ≤ y) (hyz : y ≤ z) :
    x ≤ z := by
  rw [le_iff_amount hx hz]
  exact ((le_iff_amount hx hy).1 hxy).trans ((le_iff_amount hy hz).1 hyz)

/-- One of two numbers that are not negative is no less than the other. -/
theorem le_of_not_lt (hx : 0 ≤ x) (hy : 0 ≤ y) (h : ¬ x < y) : y ≤ x := by
  rw [le_iff_amount hy hx]
  rcases nonneg_iff.1 hx with rfl | ⟨fx, -⟩
  · exact le_top
  rcases nonneg_iff.1 hy with rfl | ⟨fy, -⟩
  · exact absurd (lt_infinity fx) h
  · rw [amount_of_isFinite fx, amount_of_isFinite fy, WithTop.coe_le_coe]
    exact not_lt.1 (mt (lt_iff_value fx fy).2 h)

/-- What does not exceed a finite number is finite. -/
theorem isFinite_of_le (hx : 0 ≤ x) (hy : y.isFinite) (hxy : x ≤ y) : x.isFinite := by
  rcases nonneg_iff.1 hx with rfl | ⟨finite, -⟩
  · exact absurd hxy (not_infinity_le hy)
  · exact finite

/-- A fraction of single precision is rounded to itself. -/
theorem le_rounded_amount (x : Float32) : amount x ≤ rounded (amount x) := by
  by_cases finite : x.isFinite
  · rw [amount_of_isFinite finite, rounded_coe, nearest_value finite]
    split_ifs
    · exact le_rfl
    · exact le_top
  · rw [amount, if_neg finite]
    exact le_top

end Amount

/-! ### Results -/

section Rounds

variable {a : UnpackedFloat} {r : Float32} {q : ℚ}

/-- What is too large to be packed is infinite. -/
theorem Rounds.eq_infinity (rounds : Rounds a q) (hq : 0 ≤ q)
    (hr : r.toModel.unpack = unpack .binary32 (pack .binary32 a)) (large : ¬ r.isFinite) :
    r = 1 / 0 := by
  obtain ⟨hproper, hfinite, hworth⟩ := rounds
  have hnonneg : 0 ≤ worth a := hworth ▸ nearest_nonneg hq
  change ¬ r.toModel.unpack.isFinite at large
  refine unpack_injective (hr.trans ?_)
  rw [hr] at large
  rcases a with s | - | s | ⟨s, m, p, hm⟩
  · cases hfinite
  · cases hfinite
  · exact absurd (congrArg UnpackedFloat.isFinite unpack_packedZero) large
  · have hpos : (0 : ℚ) < m * 2 ^ p := mul_pos (Nat.cast_pos.2 hm) (by positivity)
    have hlarge : 104 < p := not_le.1 fun small =>
      large (isFinite_unpack_pack_of_le hproper small)
    rw [pack_of_large hm hlarge, unpack_packedInfinity, unpack_infinity]
    cases s with
    | negative => exact absurd hnonneg (not_le.2 (neg_neg_of_pos hpos))
    | positive => rfl

/-- **A result that is not negative** amounts to what the exact one is rounded to. -/
theorem Rounds.amount_eq (rounds : Rounds a q) (hq : 0 ≤ q)
    (hr : r.toModel.unpack = unpack .binary32 (pack .binary32 a)) :
    0 ≤ r ∧ amount r = rounded q := by
  have hrange : InRange q ↔ nearest q < 2 ^ (128 : ℤ) := by
    rw [InRange, abs_of_nonneg (nearest_nonneg hq)]
  by_cases finite : r.isFinite
  · have hvalue := rounds.value_eq hr finite
    rw [nonneg_iff, amount_of_isFinite finite, hvalue, rounded_coe,
      if_pos (hrange.1 ((rounds.isFinite_iff hr).1 finite))]
    exact ⟨.inr ⟨finite, nearest_nonneg hq⟩, rfl⟩
  · obtain rfl := rounds.eq_infinity hq hr finite
    rw [rounded_coe, if_neg fun h => finite ((rounds.isFinite_iff hr).2 (hrange.2 h))]
    exact ⟨by decide, rfl⟩

end Rounds

section Operations

variable {x y z : Float32}

/-- Infinity stays infinite, whatever is added. -/
theorem infinity_add (hy : 0 ≤ y) : 1 / 0 + y = 1 / 0 := by
  rcases nonneg_iff.1 hy with rfl | ⟨fy, -⟩
  · rfl
  · change y.toModel.unpack.isFinite at fy
    refine unpack_injective ?_
    rw [unpack_add, unpack_infinity]
    generalize y.toModel.unpack = b at fy ⊢
    cases b <;> first | exact unpack_packedInfinity .positive | cases fy

/-- Infinity makes whatever it is added to infinite. -/
theorem add_infinity (hx : 0 ≤ x) : x + 1 / 0 = 1 / 0 := by
  rcases nonneg_iff.1 hx with rfl | ⟨fx, -⟩
  · rfl
  · change x.toModel.unpack.isFinite at fx
    refine unpack_injective ?_
    rw [unpack_add, unpack_infinity]
    generalize x.toModel.unpack = a at fx ⊢
    cases a <;> first | exact unpack_packedInfinity .positive | cases fx

/-- **Sums** of numbers that are not negative. -/
theorem amount_add (hx : 0 ≤ x) (hy : 0 ≤ y) :
    0 ≤ x + y ∧ amount (x + y) = rounded (amount x + amount y) := by
  rcases nonneg_iff.1 hx with rfl | ⟨fx, vx⟩
  · rw [infinity_add hy, amount_infinity, top_add]
    exact ⟨hx, rfl⟩
  rcases nonneg_iff.1 hy with rfl | ⟨fy, vy⟩
  · rw [add_infinity hx, amount_infinity, add_top]
    exact ⟨hy, rfl⟩
  · rw [amount_of_isFinite fx, amount_of_isFinite fy]
    exact (rounds_add (isProper_toModel x) (isProper_toModel y) fx fy).amount_eq
      (add_nonneg vx vy) (unpack_add x y)

/-- A sum of numbers that are not negative is not negative. -/
theorem zero_le_add (hx : 0 ≤ x) (hy : 0 ≤ y) : 0 ≤ x + y := (amount_add hx hy).1

/-- A sum is no less than its first part. -/
theorem le_add (hx : 0 ≤ x) (hy : 0 ≤ y) : x ≤ x + y := by
  obtain ⟨hsum, hamount⟩ := amount_add hx hy
  rw [le_iff_amount hx hsum, hamount]
  calc amount x ≤ rounded (amount x) := le_rounded_amount x
    _ ≤ rounded (amount x + amount y) := rounded_mono (le_add_of_nonneg_right (zero_le_amount hy))

/-- A sum is no less than one with a smaller second part. -/
theorem add_le_add_of_le (hx : 0 ≤ x) (hy : 0 ≤ y) (hz : 0 ≤ z) (hyz : y ≤ z) :
    x + y ≤ x + z := by
  obtain ⟨hxy, hamount⟩ := amount_add hx hy
  obtain ⟨hxz, hamount'⟩ := amount_add hx hz
  rw [le_iff_amount hxy hxz, hamount, hamount']
  exact rounded_mono (add_le_add le_rfl ((le_iff_amount hy hz).1 hyz))

/-- A finite sum is no less than its first part, whatever the sign of that. -/
theorem le_add_of_isFinite (hy : 0 ≤ y) (finite : (x + y).isFinite) : x ≤ x + y := by
  obtain ⟨fx, fy⟩ := isFinite_of_add finite
  rw [le_iff_value fx finite, value_add fx fy finite]
  calc value x = nearest (value x) := (nearest_value fx).symm
    _ ≤ nearest (value x + value y) :=
      nearest_mono (le_add_of_nonneg_right (zero_le_value fy hy))

/-- A finite difference is no more than its first part. -/
theorem sub_le_of_isFinite (hy : 0 ≤ y) (finite : (x - y).isFinite) : x - y ≤ x := by
  obtain ⟨fx, fy⟩ := isFinite_of_sub finite
  rw [le_iff_value finite fx, value_sub fx fy finite]
  calc nearest (value x - value y) ≤ nearest (value x) :=
      nearest_mono (sub_le_self _ (zero_le_value fy hy))
    _ = value x := nearest_value fx

/-- A finite sum is worth no less than either part. -/
theorem value_le_add (hx : 0 ≤ x) (hy : 0 ≤ y) (finite : (x + y).isFinite) :
    value x ≤ value (x + y) ∧ value y ≤ value (x + y) := by
  obtain ⟨fx, fy⟩ := isFinite_of_add finite
  refine ⟨(le_iff_value fx finite).1 (le_add_of_isFinite hy finite), ?_⟩
  rw [value_add fx fy finite]
  calc value y = nearest (value y) := (nearest_value fy).symm
    _ ≤ nearest (value x + value y) :=
      nearest_mono (le_add_of_nonneg_left (zero_le_value fx hx))

/-- **The error of a sum** is half a unit at most, also of whatever the sum does not exceed. -/
theorem abs_value_add_sub_le {w : ℚ} (hx : 0 ≤ x) (hy : 0 ≤ y) (finite : (x + y).isFinite)
    (hw : 0 < w) (hle : value (x + y) ≤ w) :
    |value (x + y) - (value x + value y)| ≤ 2 ^ unit w / 2 := by
  obtain ⟨fx, fy⟩ := isFinite_of_add finite
  have hnonneg : 0 ≤ value (x + y) := zero_le_value finite (zero_le_add hx hy)
  rw [value_add fx fy finite] at hle hnonneg ⊢
  exact abs_nearest_sub_le hw (by rwa [abs_of_nonneg hnonneg])

/-- **Products** of fractions that are not negative. -/
theorem zero_le_mul (fx : x.isFinite) (fy : y.isFinite) (hx : 0 ≤ x) (hy : 0 ≤ y) :
    0 ≤ x * y :=
  ((rounds_mul (isProper_toModel x) (isProper_toModel y) fx fy).amount_eq
    (mul_nonneg (zero_le_value fx hx) (zero_le_value fy hy)) (unpack_mul x y)).1

/-- A difference with something infinite is undefined, out of order, or infinite. -/
theorem sub_infinite {a b : UnpackedFloat} (order : ¬ a.lt b)
    (infinite : ¬ (a.isFinite ∧ b.isFinite)) (defined : (sub .binary32 a b).isNaN = false) :
    sub .binary32 a b = .infinity .positive := by
  rcases a with s | - | s | ⟨s, m, p, hm⟩ <;> rcases b with t | - | t | ⟨t, n, q, hn⟩
  all_goals try cases s
  all_goals try cases t
  all_goals first
    | rfl
    | exact absurd rfl order
    | exact absurd ⟨rfl, rfl⟩ infinite
    | cases defined

/-- **A difference** is not negative, unless it is undefined or its second part is larger. -/
theorem zero_le_sub (order : ¬ x < y) (defined : (x - y).isNaN = false) : 0 ≤ x - y := by
  by_cases finite : x.isFinite ∧ y.isFinite
  · obtain ⟨fx, fy⟩ := finite
    rw [lt_iff_value fx fy, not_lt] at order
    exact ((rounds_sub (isProper_toModel x) (isProper_toModel y) fx fy).amount_eq
      (sub_nonneg.2 order) (unpack_sub x y)).1
  · change (x - y).toModel.unpack.isNaN = false at defined
    rw [unpack_sub] at defined
    have hsub := sub_infinite (mt (lt_iff_unpack x y).2 order) finite
      (isNaN_of_isNaN_unpack_pack defined)
    have heq : x - y = 1 / 0 := by
      refine unpack_injective ?_
      rw [unpack_sub, hsub]
      exact unpack_packedInfinity .positive
    rw [heq]
    decide

end Operations

/-! ### Counts -/

section Counts

variable {n : ℕ} {q : ℚ}

/-- What fits a machine word fits it when rounded. -/
theorem nearest_le_word (hq : q ≤ 2 ^ 64) : nearest q ≤ 2 ^ 64 := by
  have single : IsSingle (2 ^ 23) 41 := ⟨by decide, by decide, by decide, .inl le_rfl⟩
  have hword : ((2 ^ 23 : ℕ) : ℚ) * 2 ^ (41 : ℤ) = 2 ^ 64 := pow_mul_zpow 23 41
  rw [← hword] at hq ⊢
  exact (nearest_mono hq).trans (nearest_of_isSingle single).le

/-- A machine word is not too large. -/
theorem inRange_of_le_word (hnonneg : 0 ≤ q) (hq : q ≤ 2 ^ 64) : InRange q := by
  rw [InRange, abs_of_nonneg (nearest_nonneg hnonneg)]
  exact (nearest_le_word hq).trans_lt (by norm_num)

/-- Without a power of ten there is only a significand to round. -/
theorem ofScientific_zero (hn : 0 < n) : ofScientific .binary32 n 0 =
    roundWithAccuracy .binary32 .positive (n <<< 24) (-24) .exact := by
  have hbits : Format.binary32.mantissaBits = 24 := rfl
  have hlimit : (0 : ℤ) ≤ 2 ^ Format.binary32.exponentBits := by positivity
  have hsign : Sign.positive * Sign.positive = .positive := rfl
  rw [ofScientific, dif_neg hn.ne', if_neg (not_lt.2 hlimit), if_neg (by omega), if_pos le_rfl,
    mul, Int.toNat_zero, pow_zero, mul_one, add_zero, hbits, hsign]
  rfl

/-- A count is rounded to the nearest number. -/
theorem rounds_ofScientific (hn : 0 < n) : Rounds (ofScientific .binary32 n 0) n := by
  have hworth : ((n <<< 24 : ℕ) : ℚ) * 2 ^ (-24 : ℤ) = n := by
    rw [Nat.shiftLeft_eq, Nat.cast_mul, mul_assoc, pow_mul_zpow]
    exact mul_one _
  have hunit : (-24 : ℤ) ≤ unit ((n <<< 24 : ℕ) * 2 ^ (-24 : ℤ)) := by
    have hhalf : (2 : ℚ) ^ (-24 + 23 : ℤ) ≤ 1 := by norm_num
    rw [hworth, le_unit_iff (Nat.cast_pos.2 hn)]
    exact .inl (hhalf.trans (Nat.one_le_cast.2 hn))
  have rounds := rounds_roundWithAccuracy .positive
    (Nat.pos_of_ne_zero (mt Nat.shiftLeft_eq_zero_iff.1 hn.ne')) hunit
  rw [hworth] at rounds
  rw [ofScientific_zero hn]
  exact rounds

/-- A small count is converted by way of a machine word. -/
theorem ofNat_of_lt (small : n < 2 ^ 23) :
    Float32.ofNat n = n.toUInt64.toFloat32 * Float32.ofBits 0x3F800000 := by
  have hsmall : n < 2 ^ 23 ∧ 0 ≤ 10 := ⟨small, by decide⟩
  change Float32.ofScientific n false 0 = _
  rw [Float32.ofScientific, dif_pos hsmall]
  rfl

/-- A large count is converted by way of a decimal without an exponent. -/
theorem unpack_ofNat (large : ¬ n < 2 ^ 23) : (Float32.ofNat n).toModel.unpack =
    unpack .binary32 (pack .binary32 (ofScientific .binary32 n 0)) := by
  have hlarge : ¬ (n < 2 ^ 23 ∧ 0 ≤ 10) := fun h => large h.1
  have heq : Float32.ofNat n = Float32.ofModel (Float32.Model.ofScientific n 0) := by
    change Float32.ofScientific n false 0 = _
    rw [Float32.ofScientific, dif_neg hlarge]
    rfl
  rw [heq]
  rfl

/-- A machine word is converted by rounding its exact value. -/
theorem unpack_toFloat32 (w : UInt64) : w.toFloat32.toModel.unpack =
    unpack .binary32
      (pack .binary32 (UnpackedFloat.normalize .binary32 w.toNat 0 .positive)) := rfl

/-- A machine word becomes a finite number that is not negative and no larger than any word. -/
theorem toFloat32_word (w : UInt64) :
    w.toFloat32.isFinite ∧ 0 ≤ w.toFloat32 ∧ value w.toFloat32 ≤ 2 ^ 64 := by
  have rounds := rounds_normalize w.toNat 0 .positive
  rw [zpow_zero, mul_one, Int.cast_natCast] at rounds
  have hle : (w.toNat : ℚ) ≤ 2 ^ 64 := by
    exact_mod_cast w.toNat_lt.le
  have finite : w.toFloat32.isFinite :=
    (rounds.isFinite_iff (unpack_toFloat32 w)).2 (inRange_of_le_word (Nat.cast_nonneg _) hle)
  refine ⟨finite, (rounds.amount_eq (Nat.cast_nonneg _) (unpack_toFloat32 w)).1, ?_⟩
  rw [rounds.value_eq (unpack_toFloat32 w) finite]
  exact nearest_le_word hle

/-- The bits of one are worth one. -/
theorem value_one : value (Float32.ofBits 0x3F800000) = 1 := by
  have hbits : (Float32.ofBits 0x3F800000).toModel.unpack =
      .finite .positive (2 ^ 23) (-23) (by decide) := by rfl
  rw [value, hbits, worth, signed, pow_mul_zpow]
  rfl

/-- **A count** that is a machine word is finite and not negative. -/
theorem ofNat_word (h : n < 2 ^ 64) : (Float32.ofNat n).isFinite ∧ 0 ≤ Float32.ofNat n := by
  by_cases small : n < 2 ^ 23
  · obtain ⟨finite, nonneg, hle⟩ := toFloat32_word n.toUInt64
    have one : (Float32.ofBits 0x3F800000).isFinite := by decide
    rw [ofNat_of_lt small]
    refine ⟨?_, zero_le_mul finite one nonneg (by decide)⟩
    rw [isFinite_mul_iff finite one, value_one, mul_one]
    exact inRange_of_le_word (zero_le_value finite nonneg) hle
  · have hn : 0 < n := by omega
    have hle : (n : ℚ) ≤ 2 ^ 64 := by
      exact_mod_cast h.le
    have rounds := rounds_ofScientific hn
    have finite := (rounds.isFinite_iff (unpack_ofNat small)).2
      (inRange_of_le_word (Nat.cast_nonneg n) hle)
    exact ⟨finite, (rounds.amount_eq (Nat.cast_nonneg n) (unpack_ofNat small)).1⟩

end Counts

end Marquee.Number
