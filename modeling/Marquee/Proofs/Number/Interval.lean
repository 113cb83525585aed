import Marquee.Proofs.Number.Single

/-!
# Shortest Decimals Tell Fractions Apart

A decimal of at most nine digits stands for a single-precision fraction if it lies in the
interval around it. There always is one, and it lies in no other such interval: two of them
have an end in common at most, and of two neighbors only one counts its ends as inside.

## Main statements

* `holds_shortest` — the decimal that is written for a fraction lies in its interval;
* `eq_of_holds` — a number lies in the interval of one fraction at most.
-/

namespace Marquee.Number

namespace Decimal

/-- The number that a decimal stands for. -/
def value (d : Decimal) : ℚ := d.digits * 10 ^ d.exponent

/-- Zeros at the end do not count. -/
theorem value_strip (d : Decimal) : d.strip.value = d.value := by
  fun_induction strip d with
  | case1 d h ih =>
    have hdigits : (d.digits : ℚ) = 10 * (d.digits / 10 : Nat) := by
      exact_mod_cast (show d.digits = 10 * (d.digits / 10) by omega)
    rw [ih, value, value, hdigits, zpow_add_one₀ (by norm_num)]
    ring
  | case2 d h => rfl

end Decimal

namespace Interval

/-- A number lies between the halfway points, or on one of them if they count. -/
def Holds (i : Interval) (x : ℚ) : Prop :=
  if i.closed then i.lower ≤ x * i.denominator ∧ x * i.denominator ≤ i.upper
  else i.lower < x * i.denominator ∧ x * i.denominator < i.upper

/-! ### Decimals next to a fraction -/

section Pick

variable {i : Interval} {n : Nat}

/-- The check of a natural number decides whether it lies between the halfway points. -/
theorem contains_iff : i.contains n = true ↔ i.Holds n := by
  rw [contains, Holds]
  cases i.closed with
  | true => simp; norm_cast
  | false => simp; norm_cast

/-- A power of ten with its inverse, in natural numbers where it can be. -/
theorem ten_zpow_mul (e : Int) : (10 : ℚ) ^ e * 10 ^ (-e).toNat = 10 ^ e.toNat := by
  rw [← zpow_natCast, ← zpow_natCast, ← zpow_add₀ (by norm_num)]
  congr 1
  omega

/-- A power of ten is the same among the fractions. -/
theorem cast_pow_ten (k : Nat) : ((Nat.pow 10 k : Nat) : ℚ) = 10 ^ k := by
  rw [Nat.pow_eq, Nat.cast_pow, Nat.cast_ofNat]

/-- The denominator on a grid, as a fraction. -/
theorem cast_denominator_onGrid (i : Interval) (e : Int) :
    ((i.onGrid e).denominator : ℚ) = i.denominator * 10 ^ e * 10 ^ (-e).toNat := by
  rw [onGrid, Nat.cast_mul, cast_pow_ten, ← ten_zpow_mul, mul_assoc]

/-- On the grid of a power of ten, decimals with that exponent are natural numbers. -/
theorem holds_onGrid {e : Int} : (i.onGrid e).Holds n ↔ i.Holds (Decimal.value ⟨n, e⟩) := by
  have hup : (0 : ℚ) < 10 ^ (-e).toNat := by positivity
  have hlower : ((i.onGrid e).lower : ℚ) = i.lower * 10 ^ (-e).toNat := by
    rw [onGrid, Nat.cast_mul, cast_pow_ten]
  have hupper : ((i.onGrid e).upper : ℚ) = i.upper * 10 ^ (-e).toNat := by
    rw [onGrid, Nat.cast_mul, cast_pow_ten]
  have hmiddle : (n : ℚ) * (i.onGrid e).denominator =
      Decimal.value ⟨n, e⟩ * i.denominator * 10 ^ (-e).toNat := by
    rw [cast_denominator_onGrid, Decimal.value]
    ring
  rw [Holds, Holds, hlower, hupper, hmiddle, show (i.onGrid e).closed = i.closed from rfl]
  simp only [mul_le_mul_iff_left₀ hup, mul_lt_mul_iff_left₀ hup]

/-- The fraction lies between the natural number below it and the next one. -/
theorem middle_onGrid (hden : 0 < i.denominator) (e : Int)
    (hn : n = (i.onGrid e).middle / (i.onGrid e).denominator) :
    n * 10 ^ e * i.denominator ≤ (i.middle : ℚ) ∧
      (i.middle : ℚ) < (n + 1) * 10 ^ e * i.denominator := by
  have hup : (0 : ℚ) < 10 ^ (-e).toNat := by positivity
  have hgrid : 0 < (i.onGrid e).denominator := Nat.mul_pos hden (Nat.pow_pos (by decide))
  have hmiddle : ((i.onGrid e).middle : ℚ) = i.middle * 10 ^ (-e).toNat := by
    rw [onGrid, Nat.cast_mul, cast_pow_ten]
  have hbelow : n * (i.onGrid e).denominator ≤ (i.onGrid e).middle := hn ▸ Nat.div_mul_le_self _ _
  have habove : (i.onGrid e).middle < (n + 1) * (i.onGrid e).denominator :=
    (Nat.div_lt_iff_lt_mul hgrid).1 (hn ▸ Nat.lt_succ_self _)
  rw [← Nat.cast_le (α := ℚ), Nat.cast_mul, cast_denominator_onGrid, hmiddle] at hbelow
  rw [← Nat.cast_lt (α := ℚ), Nat.cast_mul, cast_denominator_onGrid, hmiddle] at habove
  constructor
  · rw [← mul_le_mul_iff_left₀ hup]
    linarith
  · rw [← mul_lt_mul_iff_left₀ hup]
    push_cast at habove
    linarith

/-- What is picked singles the fraction out. If nothing is picked, the natural number above
the fraction does not. -/
theorem pick?_spec (tie : Tie) (i : Interval) :
    match i.pick? tie with
    | some n => i.contains n = true
    | none => i.contains (i.middle / i.denominator + 1) = false := by
  fun_cases pick? tie i with
  | case1 tie below outside _ => exact outside
  | case2 tie below _ inside => exact inside
  | case3 tie below inside _ => exact inside
  | case4 tie below rest _ inside _ => exact inside
  | case5 tie below rest inside _ _ => exact inside
  | case6 below rest above inside _ _ =>
    dsimp only
    rcases Nat.mod_two_eq_zero_or_one below with h | h
    · rwa [h]
    · rwa [h]
  | case7 below rest inside _ _ _ => exact inside

end Pick

/-! ### The leading digit -/

/-- A number of so many digits is no less than the power of ten with as many. -/
theorem ten_pow_le_of_length {n : Nat} (pos : 0 < n) :
    10 ^ ((Nat.toDigits 10 n).length - 1) ≤ n := by
  by_contra hlt
  rcases Nat.eq_zero_or_pos ((Nat.toDigits 10 n).length - 1) with hzero | hpos
  · rw [hzero] at hlt
    omega
  · have hle := (Nat.length_toDigits_le_iff (by decide) hpos).2 (Nat.lt_of_not_le hlt)
    omega

/-- A number is less than the power of ten with one digit more. -/
theorem lt_ten_pow_length (n : Nat) : n < 10 ^ (Nat.toDigits 10 n).length :=
  (Nat.length_toDigits_le_iff (by decide) Nat.length_toDigits_pos).1 (Nat.le_refl _)

/-- The leading digit does not stand above the fraction. -/
theorem ten_zpow_leading_le {i : Interval} (hmiddle : 0 < i.middle) (hden : 0 < i.denominator) :
    (10 : ℚ) ^ i.leading ≤ i.middle / i.denominator := by
  have hm : (0 : ℚ) < i.middle := by exact_mod_cast hmiddle
  have hq : (0 : ℚ) < i.denominator := by exact_mod_cast hden
  rw [leading]
  split
  · next hle =>
    have hdigits := ten_pow_le_of_length (Nat.div_pos hle hden)
    set k := (Nat.toDigits 10 (i.middle / i.denominator)).length - 1 with hk
    have hlen : ((Nat.toDigits 10 (i.middle / i.denominator)).length : Int) - 1 = (k : Int) := by
      have := Nat.length_toDigits_pos (b := 10) (n := i.middle / i.denominator)
      omega
    have hmul : 10 ^ k * i.denominator ≤ i.middle := (Nat.le_div_iff_mul_le hden).1 hdigits
    rw [hlen, zpow_natCast, le_div_iff₀ hq]
    exact_mod_cast hmul
  · next hlt =>
    have hdigits := lt_ten_pow_length ((i.denominator - 1) / i.middle)
    set k := (Nat.toDigits 10 ((i.denominator - 1) / i.middle)).length
    have hmul : i.denominator - 1 < 10 ^ k * i.middle := (Nat.div_lt_iff_lt_mul hmiddle).1 hdigits
    have hle : i.denominator ≤ i.middle * 10 ^ k := by
      rw [Nat.mul_comm]
      omega
    rw [zpow_neg, zpow_natCast, le_div_iff₀ hq, inv_mul_le_iff₀ (by positivity), mul_comm]
    exact_mod_cast hle

/-! ### Around a single-precision fraction -/

/-- The interval around a single-precision fraction. -/
def around (m : Nat) (q : Int) : Interval := ofBinary m q 24 (-149)

/-- How far the lower halfway point lies away, in quarters of the unit in the last place. -/
def stepBelow (m : Nat) (q : Int) : Nat := if m = 2 ^ 23 ∧ -149 < q then 1 else 2

section Around

variable {m : Nat} {q : Int} {x : ℚ}

/-- The lower halfway point lies half a unit away at most. -/
theorem stepBelow_le (m : Nat) (q : Int) : stepBelow m q ≤ 2 := by
  rw [stepBelow]
  split
  · decide
  · decide

/-- The denominator around a fraction is positive. -/
theorem denominator_pos (m : Nat) (q : Int) : (0 : ℚ) < (around m q).denominator := by
  have hpos : 0 < (around m q).denominator := Nat.pow_pos (by decide)
  exact_mod_cast hpos

/-- The quarter of a unit, over the denominator. -/
theorem scale_around (q : Int) (m : Nat) :
    ((Nat.pow 2 (q - 2).toNat : Nat) : ℚ) = 2 ^ (q - 2) * (around m q).denominator := by
  have hden : (around m q).denominator = Nat.pow 2 (2 - q).toNat := rfl
  rw [hden, Nat.pow_eq, Nat.pow_eq, Nat.cast_pow, Nat.cast_pow, Nat.cast_ofNat, ← zpow_natCast,
    ← zpow_natCast, ← zpow_add₀ (by norm_num)]
  congr 1
  omega

/-- The lower halfway point, over the denominator. -/
theorem lower_around (pos : 0 < m) :
    ((around m q).lower : ℚ) =
      (4 * m - stepBelow m q) * 2 ^ (q - 2) * (around m q).denominator := by
  have hle := stepBelow_le m q
  have hlower : (around m q).lower = (4 * m - stepBelow m q) * Nat.pow 2 (q - 2).toNat := rfl
  rw [hlower, Nat.cast_mul, scale_around q m, Nat.cast_sub (by omega)]
  push_cast
  ring

/-- The fraction itself, over the denominator. -/
theorem middle_around :
    ((around m q).middle : ℚ) = 4 * m * 2 ^ (q - 2) * (around m q).denominator := by
  have hmiddle : (around m q).middle = 4 * m * Nat.pow 2 (q - 2).toNat := rfl
  rw [hmiddle, Nat.cast_mul, scale_around q m]
  push_cast
  ring

/-- The upper halfway point, half a unit away. -/
theorem upper_around :
    ((around m q).upper : ℚ) = (4 * m + 2) * 2 ^ (q - 2) * (around m q).denominator := by
  have hupper : (around m q).upper = (4 * m + 2) * Nat.pow 2 (q - 2).toNat := rfl
  rw [hupper, Nat.cast_mul, scale_around q m]
  push_cast
  ring

/-- What lies in the interval of a fraction: numbers between the halfway points, and these
themselves if the significand is even. -/
theorem holds_around (pos : 0 < m) : (around m q).Holds x ↔
    if m % 2 = 0 then (4 * m - stepBelow m q) * 2 ^ (q - 2) ≤ x ∧ x ≤ (4 * m + 2) * 2 ^ (q - 2)
    else (4 * m - stepBelow m q) * 2 ^ (q - 2) < x ∧ x < (4 * m + 2) * 2 ^ (q - 2) := by
  have hden := denominator_pos m q
  have hclosed : (around m q).closed = (m % 2 == 0) := rfl
  rw [Holds, lower_around pos, upper_around, hclosed]
  simp only [mul_le_mul_iff_left₀ hden, mul_lt_mul_iff_left₀ hden, beq_iff_eq]

/-- The interval of the smaller of two fractions ends where that of the larger begins, or
before. In the first case one of the significands is odd. -/
theorem upper_le_lower {m' : Nat} {q' : Int} (single : IsSingle m q) (single' : IsSingle m' q')
    (lt : q < q' ∨ q = q' ∧ m < m') : ∃ d : Nat, q' = q + d ∧
      (4 * m + 2 < (4 * m' - stepBelow m' q') * 2 ^ d ∨
        4 * m + 2 = (4 * m' - stepBelow m' q') * 2 ^ d ∧ (m % 2 = 1 ∨ m' % 2 = 1)) := by
  obtain ⟨pos, hlt, hleast, hnormal⟩ := single
  obtain ⟨pos', hlt', hleast', hnormal'⟩ := single'
  rcases lt with hq | ⟨rfl, hm⟩
  · obtain ⟨k, hk⟩ : ∃ k : Nat, q' = q + (k + 1 : Nat) := ⟨(q' - q - 1).toNat, by omega⟩
    refine ⟨k + 1, hk, ?_⟩
    have hlower : 2 ^ 26 - 2 ≤ (4 * m' - stepBelow m' q') * 2 := by
      rw [stepBelow]
      split <;> omega
    rw [Nat.pow_succ', ← Nat.mul_assoc]
    rcases k with _ | k
    · omega
    · left
      have hpow : 2 ≤ 2 ^ (k + 1) := by
        have := Nat.pow_pos (n := k) (show 0 < 2 by decide)
        omega
      have := Nat.mul_le_mul hlower hpow
      omega
  · refine ⟨0, by omega, ?_⟩
    have hle := stepBelow_le m' q
    omega

/-- What lies in the interval of a fraction lies in that of no larger one. -/
theorem not_holds_of_lt {m' : Nat} {q' : Int} (single : IsSingle m q) (single' : IsSingle m' q')
    (lt : q < q' ∨ q = q' ∧ m < m') (here : (around m q).Holds x) :
    ¬ (around m' q').Holds x := by
  intro there
  obtain ⟨d, rfl, hends⟩ := upper_le_lower single single' lt
  have hunit : (0 : ℚ) < 2 ^ (q - 2) := by positivity
  have hscale : (2 : ℚ) ^ (q + d - 2) = 2 ^ d * 2 ^ (q - 2) := by
    rw [← zpow_natCast, ← zpow_add₀ (by norm_num)]
    congr 1
    omega
  have hstep : stepBelow m' (q + d) ≤ 4 * m' := by
    have := stepBelow_le m' (q + d)
    have := single'.pos
    omega
  rw [holds_around single.pos] at here
  rw [holds_around single'.pos, hscale, ← mul_assoc] at there
  rcases hends with hlt | ⟨heq, hodd⟩
  · have hlt : ((4 * m + 2 : ℚ)) < (4 * m' - stepBelow m' (q + d)) * 2 ^ d := by
      have := (Nat.cast_lt (α := ℚ)).2 hlt
      push_cast [hstep] at this
      exact this
    have := mul_lt_mul_of_pos_right hlt hunit
    split at here <;> split at there <;> linarith [here.2, there.1]
  · have heq : ((4 * m + 2 : ℚ)) = (4 * m' - stepBelow m' (q + d)) * 2 ^ d := by
      have := congrArg (Nat.cast (R := ℚ)) heq
      push_cast [hstep] at this
      exact this
    rw [← heq] at there
    rcases hodd with hodd | hodd
    · rw [if_neg (by omega)] at here
      split at there <;> linarith [here.2, there.1]
    · rw [if_neg (by omega)] at there
      split at here <;> linarith [here.2, there.1]

/-- **A number lies in the interval of one fraction at most.** -/
theorem eq_of_holds {m' : Nat} {q' : Int} (single : IsSingle m q) (single' : IsSingle m' q')
    (here : (around m q).Holds x) (there : (around m' q').Holds x) : m = m' ∧ q = q' := by
  by_contra hne
  have order : (q < q' ∨ q = q' ∧ m < m') ∨ (q' < q ∨ q' = q ∧ m' < m) := by omega
  rcases order with lt | lt
  · exact not_holds_of_lt single single' lt here there
  · exact not_holds_of_lt single' single lt there here

/-! ### The decimal that is written -/

/-- A step of nine digits is less than half a unit in the last place. -/
theorem ten_zpow_lt (single : IsSingle m q) :
    (10 : ℚ) ^ ((around m q).leading - 8) < 2 * 2 ^ (q - 2) := by
  have hden := denominator_pos m q
  have hunit : (0 : ℚ) < 2 ^ (q - 2) := by positivity
  have hlt : (m : ℚ) < 2 ^ 24 := by exact_mod_cast single.lt
  have hmiddle : (0 : ℚ) < (around m q).middle := by
    have hm : (0 : ℚ) < m := by exact_mod_cast single.pos
    rw [middle_around]
    positivity
  have hleading := ten_zpow_leading_le (i := around m q) (by exact_mod_cast hmiddle)
    (by exact_mod_cast hden)
  rw [middle_around, mul_div_assoc, div_self hden.ne', mul_one] at hleading
  rw [zpow_sub₀ (by norm_num), div_lt_iff₀ (by norm_num)]
  calc (10 : ℚ) ^ (around m q).leading ≤ 4 * m * 2 ^ (q - 2) := hleading
    _ < 4 * 2 ^ 24 * 2 ^ (q - 2) := by gcongr
    _ ≤ 2 * 2 ^ (q - 2) * 10 ^ (8 : Int) := by norm_num; linarith

/-- Of nine digits, the natural number above a fraction singles it out. -/
theorem contains_above (single : IsSingle m q) {e : Int} (he : e = (around m q).leading - 8)
    {n : Nat} (hn : n = ((around m q).onGrid e).middle / ((around m q).onGrid e).denominator) :
    ((around m q).onGrid e).contains (n + 1) = true := by
  have hden := denominator_pos m q
  have hunit : (0 : ℚ) < 2 ^ (q - 2) := by positivity
  have hstep : (10 : ℚ) ^ e < 2 * 2 ^ (q - 2) := he ▸ ten_zpow_lt single
  have hbelow : (0 : ℚ) < stepBelow m q * 2 ^ (q - 2) := by
    rw [stepBelow]
    split <;> positivity
  obtain ⟨hle, hlt⟩ := middle_onGrid (i := around m q) (by exact_mod_cast hden) e hn
  rw [middle_around, mul_le_mul_iff_left₀ hden] at hle
  rw [middle_around, mul_lt_mul_iff_left₀ hden] at hlt
  rw [contains_iff, holds_onGrid, holds_around single.pos, Decimal.value]
  push_cast
  split
  · constructor <;> linarith
  · constructor <;> linarith

/-- **The decimal that is written for a fraction lies in its interval.** It is picked in the ninth
attempt at the latest. -/
theorem holds_shortest (tie : Tie) (single : IsSingle m q) :
    (around m q).Holds (Decimal.shortest tie 9 (around m q)).value := by
  rw [Decimal.shortest]
  split
  · next d hfound =>
    rw [Decimal.value_strip]
    obtain ⟨e, -, hpick⟩ := List.exists_of_findSome?_eq_some hfound
    obtain ⟨n, hn, rfl⟩ := Option.map_eq_some_iff.1 hpick
    have hspec := pick?_spec tie ((around m q).onGrid e)
    rw [hn] at hspec
    exact holds_onGrid.1 (contains_iff.1 hspec)
  · next hnone =>
    have hlast := List.findSome?_eq_none_iff.1 hnone ((around m q).leading - 8)
      (List.mem_map.2 ⟨8, by decide, rfl⟩)
    have hspec := pick?_spec tie ((around m q).onGrid ((around m q).leading - 8))
    rw [Option.map_eq_none_iff.1 hlast, contains_above single rfl rfl] at hspec
    cases hspec

end Around

end Interval

end Marquee.Number
