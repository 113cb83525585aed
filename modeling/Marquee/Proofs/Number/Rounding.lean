import Marquee.Proofs.Number.Value

/-!
# Arithmetic Is Rounded

The product and the sum of two numbers are their exact product and sum, rounded to the nearest
fraction of single precision, unless that is too large. The significand is shifted bit by bit
to its place; two more bits tell what was lost, and this is enough to round by: whether it is
more or less than half, or nothing.

## Main statements

* `Tells.shiftRight`, `Tells.roundedMantissa` — the two bits survive shifting, and tell how to
  round;
* `rounds_round` — an exact significand and exponent are rounded to the nearest;
* `rounds_mul`, `rounds_add`, `rounds_sub` — products, sums and differences, before they are
  packed;
* `unpack_pack` — packing loses nothing but what is too large.
-/

namespace Marquee.Number

open Float.Model (Format UnpackedFloat totalExponent)
open Float.Model.UnpackedFloat

/-! ### Shifting -/

/-- A significand with its two bits tells of a fraction between which natural numbers it lies,
and in which half. -/
structure Tells (em : ExtendedMantissa) (x : ℚ) : Prop where
  le : em.mantissa ≤ x
  lt : x < em.mantissa + 1
  /-- The first bit is set in the upper half. -/
  round : em.roundBit ↔ em.mantissa + 1 / 2 ≤ x
  /-- The second bit is set unless the half begins there. -/
  sticky : em.stickyBit ↔ x ≠ em.mantissa ∧ x ≠ em.mantissa + 1 / 2

/-- An exact significand tells of itself. -/
theorem tells_exact (m : ℕ) : Tells (.ofMantissaAndAccuracy m .exact) m := by
  refine ⟨le_refl _, lt_add_one _, ?_, ?_⟩
  · simp [ExtendedMantissa.ofMantissaAndAccuracy]
  · simp [ExtendedMantissa.ofMantissaAndAccuracy]

section Tells

variable {em : ExtendedMantissa} {x : ℚ}

/-- Without either bit nothing was lost. -/
theorem Tells.eq_mantissa_iff (tells : Tells em x) :
    x = em.mantissa ↔ em.roundBit = false ∧ em.stickyBit = false := by
  obtain ⟨-, -, hround, hsticky⟩ := tells
  rw [← Bool.not_eq_true, ← Bool.not_eq_true, hround, hsticky]
  constructor
  · rintro rfl
    exact ⟨by linarith, fun h => h.1 rfl⟩
  · rintro ⟨hlower, hstart⟩
    by_contra hne
    exact hstart ⟨hne, fun heq => hlower heq.ge⟩

/-- **One bit less.** Which half the fraction lies in was the last bit, and it begins there if
nothing was lost before. -/
theorem Tells.shiftRightOne (tells : Tells em x) : Tells em.shiftRightOne (x / 2) := by
  have hlost := tells.eq_mantissa_iff
  obtain ⟨hle, hlt, -, -⟩ := tells
  have hsplit : ((em.mantissa / 2 : ℕ) : ℚ) * 2 + (em.mantissa % 2 : ℕ) = em.mantissa := by
    exact_mod_cast Nat.div_add_mod' em.mantissa 2
  have hsticky : em.shiftRightOne.stickyBit ↔ x ≠ em.mantissa := by
    rw [ne_eq, hlost, ExtendedMantissa.shiftRightOne, Bool.or_eq_true]
    cases em.roundBit <;> cases em.stickyBit <;> decide
  have hhalf : em.shiftRightOne.mantissa = em.mantissa / 2 := rfl
  rcases Nat.mod_two_eq_zero_or_one em.mantissa with hbit | hbit
  · have hround : em.shiftRightOne.roundBit = false := by
      simp [ExtendedMantissa.shiftRightOne, hbit]
    rw [hbit] at hsplit
    push_cast at hsplit
    refine ⟨?_, ?_, ?_, hsticky.trans ?_⟩
    · rw [hhalf]
      linarith
    · rw [hhalf]
      linarith
    · rw [hround, hhalf]
      exact iff_of_false Bool.false_ne_true (by linarith)
    · rw [hhalf]
      constructor
      · exact fun hne => ⟨fun heq => hne (by linarith), by linarith⟩
      · exact fun ⟨hne, _⟩ heq => hne (by linarith)
  · have hround : em.shiftRightOne.roundBit = true := by
      simp [ExtendedMantissa.shiftRightOne, hbit]
    rw [hbit] at hsplit
    push_cast at hsplit
    refine ⟨?_, ?_, ?_, hsticky.trans ?_⟩
    · rw [hhalf]
      linarith
    · rw [hhalf]
      linarith
    · rw [hround, hhalf]
      exact iff_of_true rfl (by linarith)
    · rw [hhalf]
      constructor
      · exact fun hne => ⟨by linarith, fun heq => hne (by linarith)⟩
      · exact fun ⟨_, hne⟩ heq => hne (by linarith)

/-- **Any number of bits less.** -/
theorem Tells.shiftRight (tells : Tells em x) (n : ℕ) : Tells (em >>> n) (x / 2 ^ n) := by
  induction n with
  | zero =>
    rw [pow_zero, div_one]
    exact tells
  | succ n ih =>
    rw [pow_succ, ← div_div]
    exact ih.shiftRightOne

/-- **The two bits are enough** to round by. -/
theorem Tells.roundedMantissa (tells : Tells em x) : em.roundedMantissa = nearestNat x := by
  have hlost := tells.eq_mantissa_iff
  obtain ⟨hle, hlt, hround, hsticky⟩ := tells
  have hfloor : ⌊x⌋₊ = em.mantissa :=
    (Nat.floor_eq_iff (le_trans (Nat.cast_nonneg _) hle)).2 ⟨hle, hlt⟩
  obtain ⟨m, r, s⟩ := em
  rw [nearestNat, hfloor]
  cases r with
  | false =>
    have hlower : x < m + 1 / 2 := not_le.1 fun h => Bool.false_ne_true (hround.2 h)
    rw [if_pos hlower]
    cases s <;> rfl
  | true =>
    have hupper := hround.1 rfl
    rw [if_neg hupper.not_gt]
    cases s with
    | false =>
      have hmiddle : ¬ (m + 1 / 2 < x) := fun hlt => by
        refine Bool.false_ne_true (hsticky.2 ⟨?_, hlt.ne'⟩)
        intro heq
        have hx : x = m := heq
        linarith
      rw [if_neg hmiddle]
      rfl
    | true =>
      have hne : x ≠ m + 1 / 2 := (hsticky.1 rfl).2
      rw [if_pos (lt_of_le_of_ne hupper hne.symm)]
      rfl

end Tells

/-! ### Rounding an exact significand -/

/-- What comes of rounding a fraction: a number in its proper form, worth the nearest one. It
may have too large an exponent. -/
structure Rounds (a : UnpackedFloat) (x : ℚ) : Prop where
  proper : IsProper a
  finite : a.isFinite
  worth_eq : worth a = nearest x

section Round

variable {m : ℕ} {e q : ℤ}

/-- A number is no less than the power of two of its highest bit. -/
theorem pow_log_le (hm : 0 < m) : (2 : ℚ) ^ ((m.log2 : ℤ) + e) ≤ m * 2 ^ e := by
  have hle : ((2 ^ m.log2 : ℕ) : ℚ) ≤ m := Nat.cast_le.2 (Nat.log2_self_le hm.ne')
  rw [add_comm, ← pow_mul_zpow]
  gcongr

/-- It is less than the next power of two. -/
theorem lt_pow_log (m : ℕ) (e : ℤ) : (m : ℚ) * 2 ^ e < 2 ^ ((m.log2 : ℤ) + 1 + e) := by
  have hlt : (m : ℚ) < (2 ^ (m.log2 + 1) : ℕ) := Nat.cast_lt.2 Nat.lt_log2_self
  have hpow := pow_mul_zpow (m.log2 + 1) e
  rw [add_comm e] at hpow
  push_cast at hpow hlt
  rw [← hpow]
  gcongr

/-- The exponent that a significand is shifted to is that of the unit. -/
theorem targetExponent_eq (hm : 0 < m) (e : ℤ) :
    Format.binary32.targetExponent (totalExponent m e) = unit (m * 2 ^ e) := by
  have htarget : Format.binary32.targetExponent (totalExponent m e) =
      max ((m.log2 : ℤ) + 1 + e - 24) (-149) := rfl
  have hpos : (0 : ℚ) < m * 2 ^ e := mul_pos (Nat.cast_pos.2 hm) (by positivity)
  rw [htarget, eq_comm]
  refine unit_eq hpos (le_max_right _ _) ?_ ?_
  · refine (lt_pow_log m e).trans_le (zpow_le_zpow_right₀ one_le_two ?_)
    omega
  · rcases le_total ((m.log2 : ℤ) + 1 + e - 24) (-149) with hle | hle
    · exact .inr (max_eq_right hle)
    · refine .inl ?_
      rw [max_eq_left hle, show (m.log2 : ℤ) + 1 + e - 24 + 23 = m.log2 + e by ring]
      exact pow_log_le hm

/-- A significand that has too many bits, or just enough, is shifted to its unit. -/
theorem tells_shiftToTargetExponent (hm : 0 < m) (he : e ≤ unit (m * 2 ^ e)) :
    (shiftToTargetExponent .binary32 m e .exact).2 = unit (m * 2 ^ e) ∧
      Tells (shiftToTargetExponent .binary32 m e .exact).1
        (m * 2 ^ e / 2 ^ unit (m * 2 ^ e)) := by
  have hamount : ((unit (m * 2 ^ e) - e).toNat : ℤ) = unit (m * 2 ^ e) - e :=
    Int.toNat_of_nonneg (by omega)
  have hquotient : (m : ℚ) / 2 ^ (unit (m * 2 ^ e) - e).toNat =
      m * 2 ^ e / 2 ^ unit (m * 2 ^ e) := by
    rw [← zpow_natCast, hamount, zpow_sub₀ two_ne_zero, div_div_eq_mul_div]
  rw [shiftToTargetExponent, targetExponent_eq hm, shiftToExponent, ← hquotient]
  refine ⟨?_, (tells_exact m).shiftRight _⟩
  rw [hamount]
  ring

/-- A significand with 24 bits at most stays where it is. -/
theorem shiftToTargetExponent_of_lt (hm : m < 2 ^ 24) (hq : -149 ≤ q) :
    shiftToTargetExponent .binary32 m q .exact = (⟨m, false, false⟩, q) := by
  have hlog : m.log2 < 24 := by
    rcases Nat.eq_zero_or_pos m with rfl | hpos
    · decide
    · exact (Nat.log2_lt hpos.ne').2 hm
  have hamount : (max ((m.log2 : ℤ) + 1 + q - 24) (-149) - q).toNat = 0 := by omega
  have hshift : shiftToTargetExponent .binary32 m q .exact =
      (ExtendedMantissa.ofMantissaAndAccuracy m .exact >>>
        (max ((m.log2 : ℤ) + 1 + q - 24) (-149) - q).toNat,
        q + (max ((m.log2 : ℤ) + 1 + q - 24) (-149) - q).toNat) := rfl
  rw [hshift, hamount, Nat.cast_zero, add_zero]
  rfl

/-- One that was rounded up to a power of two is shifted once more. -/
theorem shiftToTargetExponent_pow (hq : -149 ≤ q) :
    shiftToTargetExponent .binary32 (2 ^ 24) q .exact = (⟨2 ^ 23, false, false⟩, q + 1) := by
  have hamount : (max (((2 ^ 24 : ℕ).log2 : ℤ) + 1 + q - 24) (-149) - q).toNat = 1 := by
    rw [Nat.log2_two_pow]
    omega
  have hshift : shiftToTargetExponent .binary32 (2 ^ 24) q .exact =
      (ExtendedMantissa.ofMantissaAndAccuracy (2 ^ 24) .exact >>>
        (max (((2 ^ 24 : ℕ).log2 : ℤ) + 1 + q - 24) (-149) - q).toNat,
        q + (max (((2 ^ 24 : ℕ).log2 : ℤ) + 1 + q - 24) (-149) - q).toNat) := rfl
  rw [hshift, hamount]
  rfl

/-- A sign is kept when a magnitude is rounded. -/
theorem nearest_signed (s : Sign) {x : ℚ} (hx : 0 ≤ x) :
    nearest (signed s x) = signed s (nearestUp x) := by
  cases s with
  | negative => exact (nearest_neg x).trans (congrArg _ (nearest_of_nonneg hx))
  | positive => exact nearest_of_nonneg hx

/-- The bits that are left of a fraction. They may have been rounded up to one more, and then
they are a power of two. -/
theorem nearestNat_unit {x : ℚ} (hx : 0 < x) : nearestNat (x / 2 ^ unit x) ≤ 2 ^ 24 ∧
    (2 ^ 23 ≤ nearestNat (x / 2 ^ unit x) ∨ unit x = -149) := by
  have hunit : (0 : ℚ) < 2 ^ unit x := by positivity
  constructor
  · refine nearestNat_le_of_lt ((div_lt_iff₀ hunit).2 ?_)
    rw [pow_mul_zpow]
    exact ((unit_le_iff hx).1 le_rfl).1
  · refine ((le_unit_iff hx).1 le_rfl).imp (fun hle => le_nearestNat_of_le ?_) fun hle =>
      le_antisymm hle (least_le_unit x)
    rw [le_div_iff₀ hunit, pow_mul_zpow]
    exact hle

/-- The number with a significand that was shifted to its place, whatever the two bits. -/
def ofShifted (s : Sign) (shifted : ExtendedMantissa × ℤ) : UnpackedFloat :=
  if h : shifted.1.mantissa = 0 then .zero s
  else .finite s shifted.1.mantissa shifted.2 (Nat.pos_of_ne_zero h)

/-- An exact significand is shifted, rounded, and shifted once more. -/
theorem roundWithAccuracy_eq (s : Sign) (m : ℕ) (e : ℤ) :
    roundWithAccuracy .binary32 s m e .exact =
      ofShifted s (shiftToTargetExponent .binary32
        (shiftToTargetExponent .binary32 m e .exact).1.roundedMantissa
        (shiftToTargetExponent .binary32 m e .exact).2 .exact) := rfl

/-- **An exact significand** that has too many bits, or just enough, is rounded to the
nearest. -/
theorem rounds_roundWithAccuracy (s : Sign) (hm : 0 < m) (he : e ≤ unit (m * 2 ^ e)) :
    Rounds (roundWithAccuracy .binary32 s m e .exact) (signed s (m * 2 ^ e)) := by
  obtain ⟨hexponent, tells⟩ := tells_shiftToTargetExponent hm he
  have hpos : (0 : ℚ) < m * 2 ^ e := mul_pos (Nat.cast_pos.2 hm) (by positivity)
  obtain ⟨hle, hleast⟩ := nearestNat_unit hpos
  have hq := least_le_unit (m * 2 ^ e)
  have hnearest : nearest (signed s (m * 2 ^ e)) = signed s (nearestUp (m * 2 ^ e)) :=
    nearest_signed s hpos.le
  rw [nearestUp] at hnearest
  rw [roundWithAccuracy_eq, tells.roundedMantissa, hexponent]
  generalize nearestNat (m * 2 ^ e / 2 ^ unit (m * 2 ^ e)) = r at *
  generalize unit (m * 2 ^ e) = q at *
  rcases hle.eq_or_lt with rfl | hlt
  · rw [shiftToTargetExponent_pow hq]
    have single : IsSingle (2 ^ 23) (q + 1) := ⟨by decide, by decide, by omega, .inl le_rfl⟩
    refine ⟨single, rfl, ?_⟩
    rw [hnearest, pow_mul_zpow]
    refine congrArg (signed s) ((pow_mul_zpow 23 (q + 1)).trans ?_)
    rw [add_assoc]
    rfl
  · rw [shiftToTargetExponent_of_lt hlt hq]
    rcases Nat.eq_zero_or_pos r with rfl | hr
    · refine ⟨trivial, rfl, ?_⟩
      rw [hnearest, Nat.cast_zero, zero_mul]
      cases s <;> rfl
    · rw [ofShifted, dif_neg hr.ne']
      exact ⟨⟨hr, hlt, hq, hleast⟩, rfl, hnearest.symm⟩

/-- A significand with too few bits is shifted the other way first. -/
theorem decreaseExponent_eq (m : ℕ) {e t : ℤ} (hle : t ≤ e) :
    (decreaseExponent m e t).2 = t ∧ ((decreaseExponent m e t).1 : ℚ) * 2 ^ t = m * 2 ^ e := by
  have hamount : ((e - t).toNat : ℤ) = e - t := Int.toNat_of_nonneg (by omega)
  rw [decreaseExponent, Nat.shiftLeft_eq]
  refine ⟨?_, ?_⟩
  · rw [hamount]
    ring
  · have hpow := pow_mul_zpow (e - t).toNat t
    rw [hamount, add_sub_cancel] at hpow
    rw [Nat.cast_mul, mul_assoc, hpow]

/-- **Any exact significand** is rounded to the nearest. -/
theorem rounds_round (s : Sign) (hm : 0 < m) (e : ℤ) :
    Rounds (UnpackedFloat.round .binary32 s m e) (signed s (m * 2 ^ e)) := by
  rw [UnpackedFloat.round, targetExponent_eq hm]
  rcases le_total e (unit (m * 2 ^ e)) with hle | hle
  · have hamount : (e - unit (m * 2 ^ e)).toNat = 0 := by omega
    rw [decreaseExponent, hamount]
    have rounds := rounds_roundWithAccuracy s hm hle
    simpa using rounds
  · obtain ⟨hexponent, hworth⟩ := decreaseExponent_eq m hle
    have hpos : (0 : ℚ) < m * 2 ^ e := mul_pos (Nat.cast_pos.2 hm) (by positivity)
    generalize (m : ℚ) * 2 ^ e = x at *
    generalize decreaseExponent m e (unit x) = shifted at *
    obtain ⟨n, t⟩ := shifted
    dsimp only at hexponent hworth ⊢
    rw [← hexponent] at hworth
    subst hworth
    have hn : 0 < n := Nat.pos_of_ne_zero fun h => by
      rw [h, Nat.cast_zero, zero_mul] at hpos
      exact hpos.false
    exact rounds_roundWithAccuracy s hn hexponent.le

/-- Zero of either sign comes of rounding zero. -/
theorem rounds_zero (s : Sign) : Rounds (.zero s) 0 := ⟨trivial, rfl, nearest_zero.symm⟩

/-- A whole number of units, positive or not, is rounded to the nearest. -/
theorem rounds_normalize (n : ℤ) (e : ℤ) (s : Sign) :
    Rounds (UnpackedFloat.normalize .binary32 n e s) (n * 2 ^ e) := by
  rcases lt_trichotomy n 0 with hn | rfl | hn
  · have hnat : ((-n).toNat : ℤ) = -n := Int.toNat_of_nonneg (by omega)
    have hworth : signed .negative ((-n).toNat * 2 ^ e) = n * 2 ^ e := by
      have hcast : ((-n).toNat : ℚ) = -n := by exact_mod_cast hnat
      rw [signed, hcast, neg_mul, neg_neg]
    rw [UnpackedFloat.normalize, compare_lt_iff_lt.2 hn, ← hworth]
    exact rounds_round .negative (by omega) e
  · rw [Int.cast_zero, zero_mul]
    exact rounds_zero s
  · have hworth : signed .positive (n.toNat * 2 ^ e) = n * 2 ^ e := by
      have hcast : (n.toNat : ℚ) = n := by exact_mod_cast Int.toNat_of_nonneg hn.le
      rw [signed, hcast]
    rw [UnpackedFloat.normalize, compare_gt_iff_gt.2 hn, ← hworth]
    exact rounds_round .positive (by omega) e

end Round

/-! ### Products and sums -/

section Operations

variable {a b : UnpackedFloat}

/-- A number in its proper form is rounded already. -/
theorem rounds_worth (ha : IsProper a) (fa : a.isFinite) : Rounds a (worth a) := by
  refine ⟨ha, fa, ?_⟩
  rcases a with s | - | s | ⟨s, m, q, hm⟩
  · cases fa
  · cases fa
  · exact nearest_zero.symm
  · have hnonneg : (0 : ℚ) ≤ m * 2 ^ q := by positivity
    rw [worth, nearest_signed s hnonneg, nearestUp_of_isSingle ha]

/-- The sign of a product is the product of the signs. -/
theorem signed_mul (s t : Sign) (x y : ℚ) : signed (s * t) (x * y) = signed s x * signed t y := by
  cases s <;> cases t
  · exact (neg_mul_neg x y).symm
  · exact (neg_mul x y).symm
  · exact (mul_neg x y).symm
  · rfl

/-- The product of two significands has enough bits. -/
theorem exponent_le_unit {m n : ℕ} {p q : ℤ} (hm : IsSingle m p) (hn : IsSingle n q) :
    p + q ≤ unit ((m * n : ℕ) * 2 ^ (p + q)) := by
  have hpos : (0 : ℚ) < (m * n : ℕ) * 2 ^ (p + q) :=
    mul_pos (Nat.cast_pos.2 (Nat.mul_pos hm.pos hn.pos)) (by positivity)
  have enough : 2 ^ 23 ≤ m * n → 2 ^ (p + q + 23) ≤ ((m * n : ℕ) : ℚ) * 2 ^ (p + q) := fun h =>
    calc (2 : ℚ) ^ (p + q + 23) = ((2 ^ 23 : ℕ) : ℚ) * 2 ^ (p + q) := (pow_mul_zpow 23 _).symm
      _ ≤ ((m * n : ℕ) : ℚ) * 2 ^ (p + q) := by gcongr
  rw [le_unit_iff hpos]
  rcases hm.least with hm' | rfl
  · exact .inl (enough (hm'.trans (Nat.le_mul_of_pos_right m hn.pos)))
  rcases hn.least with hn' | rfl
  · exact .inl (enough (hn'.trans (Nat.le_mul_of_pos_left n hm.pos)))
  · exact .inr (by norm_num)

/-- **Products are rounded.** -/
theorem rounds_mul (ha : IsProper a) (hb : IsProper b) (fa : a.isFinite) (fb : b.isFinite) :
    Rounds (mul .binary32 a b) (worth a * worth b) := by
  rcases a with s | - | s | ⟨s, m, p, hm⟩
  · cases fa
  · cases fa
  · have hzero : worth (.zero s) = 0 := rfl
    rw [hzero, zero_mul]
    rcases b with t | - | t | ⟨t, n, q, hn⟩
    · cases fb
    · cases fb
    · exact rounds_zero _
    · exact rounds_zero _
  · rcases b with t | - | t | ⟨t, n, q, hn⟩
    · cases fb
    · cases fb
    · exact (mul_zero (worth (.finite s m p hm))).symm ▸ rounds_zero _
    · have hworth : worth (.finite s m p hm) * worth (.finite t n q hn) =
          signed (s * t) ((m * n : ℕ) * 2 ^ (p + q)) := by
        rw [worth, worth, ← signed_mul, zpow_add₀ two_ne_zero, Nat.cast_mul, mul_mul_mul_comm]
      rw [hworth]
      exact rounds_roundWithAccuracy _ (Nat.mul_pos hm hn) (exponent_le_unit ha hb)

/-- A significand with a sign, over a smaller exponent. -/
theorem apply_decreaseExponent (s : Sign) (m : ℕ) {e t : ℤ} (hle : t ≤ e) :
    ((s.apply (decreaseExponent m e t).1 : ℤ) : ℚ) * 2 ^ t = signed s (m * 2 ^ e) := by
  have hworth := (decreaseExponent_eq m hle).2
  cases s with
  | negative =>
    rw [Sign.apply, Int.cast_neg, Int.cast_natCast, neg_mul, hworth]
    rfl
  | positive =>
    rw [Sign.apply, Int.cast_natCast, hworth]
    rfl

/-- **Sums are rounded.** -/
theorem rounds_add (ha : IsProper a) (hb : IsProper b) (fa : a.isFinite) (fb : b.isFinite) :
    Rounds (add .binary32 a b) (worth a + worth b) := by
  rcases a with s | - | s | ⟨s, m, p, hm⟩
  · cases fa
  · cases fa
  · have hzero : worth (.zero s) = 0 := rfl
    rw [hzero, zero_add]
    rcases b with t | - | t | ⟨t, n, q, hn⟩
    · cases fb
    · cases fb
    · rw [add]
      split
      · exact rounds_zero _
      · exact rounds_zero _
    · exact rounds_worth hb fb
  · rcases b with t | - | t | ⟨t, n, q, hn⟩
    · cases fb
    · cases fb
    · exact (add_zero (worth (.finite s m p hm))).symm ▸ rounds_worth ha fa
    · have hworth : worth (.finite s m p hm) + worth (.finite t n q hn) =
          ((s.apply (decreaseExponent m p (min p q)).1 +
            t.apply (decreaseExponent n q (min p q)).1 : ℤ) : ℚ) * 2 ^ min p q := by
        rw [Int.cast_add, add_mul, apply_decreaseExponent s m (min_le_left p q),
          apply_decreaseExponent t n (min_le_right p q)]
        rfl
      rw [hworth]
      exact rounds_normalize _ _ _

/-- The opposite number is worth the opposite fraction. -/
theorem worth_neg (a : UnpackedFloat) : worth (neg a) = -worth a := by
  rcases a with s | - | s | ⟨s, m, p, hm⟩
  any_goals exact neg_zero.symm
  cases s with
  | negative => exact (neg_neg _).symm
  | positive => rfl

/-- A difference is a sum with the other sign, undefined results included. -/
theorem sub_eq_add (a b : UnpackedFloat) : sub .binary32 a b = add .binary32 a (neg b) := by
  rcases a with s | - | s | ⟨s, m, p, hm⟩ <;> rcases b with t | - | t | ⟨t, n, q, hn⟩
  any_goals rfl
  have happly (k : ℤ) : (-t).apply k = -t.apply k := by
    cases t with
    | negative => exact (neg_neg k).symm
    | positive => rfl
  simp only [sub, neg, add, happly, Int.sub_eq_add_neg]

/-- **Differences are rounded.** -/
theorem rounds_sub (ha : IsProper a) (hb : IsProper b) (fa : a.isFinite) (fb : b.isFinite) :
    Rounds (sub .binary32 a b) (worth a - worth b) := by
  have hb' : IsProper (neg b) := by cases b <;> exact hb
  have fb' : (neg b).isFinite := by cases b <;> exact fb
  rw [sub_eq_add, sub_eq_add_neg, ← worth_neg]
  exact rounds_add ha hb' fa fb'

end Operations

/-! ### Packing -/

section Pack

variable {a : UnpackedFloat}

/-- A significand is packed in one of three ways: as infinity, with its leading one left out, or
with a small exponent as it is. -/
theorem pack_finite (s : Sign) (m : ℕ) (q : ℤ) (hm : 0 < m) :
    pack .binary32 (.finite s m q hm) =
      if 2 ^ 8 ≤ (q + 127 + 23).toNat + 1 then packedInfinity .binary32 s
      else if m.log2 + 1 = 24 then
        packComponents .binary32 s (BitVec.ofNat 8 (q + 127 + 23).toNat) (BitVec.ofNat 23 m)
      else packComponents .binary32 s 0#8 (BitVec.ofNat 23 m) := rfl

/-- What is too large becomes infinite. -/
theorem pack_of_large {s : Sign} {m : ℕ} {q : ℤ} (hm : 0 < m) (large : 104 < q) :
    pack .binary32 (.finite s m q hm) = packedInfinity .binary32 s := by
  rw [pack_finite, if_pos (by omega)]

/-- A packed infinity unpacks to the infinity of its sign. -/
theorem unpack_packedInfinity (s : Sign) :
    unpack .binary32 (packedInfinity .binary32 s) = .infinity s := by
  simp [unpack, packedInfinity]

/-- A significand of 24 bits loses the first one and gets it back. -/
theorem unpack_pack_normal (s : Sign) {m : ℕ} {q : ℤ} (single : IsSingle m q) (fits : q ≤ 104)
    (normal : 2 ^ 23 ≤ m) :
    unpack .binary32 (pack .binary32 (.finite s m q single.pos)) = .finite s m q single.pos := by
  have ⟨hpos, hlt, hq, _⟩ := single
  have hlog : m.log2 = 23 := (Nat.log2_eq_iff hpos.ne').2 ⟨normal, hlt⟩
  have hbiased : (q + 127 + 23).toNat + 1 < 2 ^ 8 ∧ 0 < (q + 127 + 23).toNat := by omega
  have hexponent : (BitVec.ofNat 8 (q + 127 + 23).toNat).toNat = (q + 127 + 23).toNat := by
    rw [BitVec.toNat_ofNat]
    exact Nat.mod_eq_of_lt (by omega)
  have hmantissa : (1#1 ++ BitVec.ofNat 23 m).toNat = m := by
    rw [toNat_leading_append, BitVec.toNat_ofNat]
    omega
  have high : BitVec.ofNat 8 (q + 127 + 23).toNat ≠ -1#8 := fun h => by
    have hnat : (q + 127 + 23).toNat = 255 := hexponent.symm.trans (congrArg BitVec.toNat h)
    omega
  have low : BitVec.ofNat 8 (q + 127 + 23).toNat ≠ 0#8 := fun h => by
    have hnat : (q + 127 + 23).toNat = 0 := hexponent.symm.trans (congrArg BitVec.toNat h)
    omega
  have hbias : ((BitVec.ofNat 8 (q + 127 + 23).toNat).toNat : ℤ) - (127 + 23) = q := by
    rw [hexponent]
    omega
  rw [pack_finite, if_neg (not_le.2 hbiased.1), hlog, if_pos rfl, unpack,
    unpackExponent_packComponents, if_neg high, if_neg low]
  simp only [unpackMantissa_packComponents, unpackSign_packComponents, Sign.ofBitVec_toBitVec,
    hmantissa]
  exact congrArg (fun e => UnpackedFloat.finite s m e hpos) hbias

/-- A significand with fewer bits keeps them all. -/
theorem unpack_pack_subnormal (s : Sign) {m : ℕ} (hpos : 0 < m) (hlt : m < 2 ^ 23) :
    unpack .binary32 (pack .binary32 (.finite s m (-149) hpos)) = .finite s m (-149) hpos := by
  have hlog : m.log2 < 23 := (Nat.log2_lt hpos.ne').2 hlt
  have hmantissa : (BitVec.ofNat 23 m).toNat = m := by
    rw [BitVec.toNat_ofNat]
    exact Nat.mod_eq_of_lt hlt
  have nonzero : BitVec.ofNat 23 m ≠ 0#23 := fun h => by
    have hnat : m = 0 := hmantissa.symm.trans (congrArg BitVec.toNat h)
    omega
  have high : (0#8 : BitVec 8) ≠ -1#8 := by decide
  rw [pack_finite, if_neg (by decide), if_neg (by omega), unpack, unpackExponent_packComponents,
    if_neg high, if_pos rfl]
  simp only [unpackMantissa_packComponents, unpackSign_packComponents, Sign.ofBitVec_toBitVec,
    dif_neg nonzero, hmantissa]
  rfl

/-- **Packing loses nothing** but what is too large. -/
theorem unpack_pack (ha : IsProper a) (fits : (unpack .binary32 (pack .binary32 a)).isFinite) :
    unpack .binary32 (pack .binary32 a) = a := by
  rcases a with s | - | s | ⟨s, m, q, hm⟩
  · exact unpack_packedInfinity s
  · exact unpack_packedNaN
  · exact unpack_packedZero
  · rcases lt_or_ge 104 q with large | small
    · rw [pack_of_large hm large, unpack_packedInfinity] at fits
      cases fits
    · rcases le_or_gt (2 ^ 23) m with normal | subnormal
      · exact unpack_pack_normal s ha small normal
      · obtain rfl : q = -149 := ha.least.resolve_left subnormal.not_ge
        exact unpack_pack_subnormal s hm subnormal

end Pack

end Marquee.Number
