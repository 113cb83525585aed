import Marquee.Number.Literal
import Marquee.Proofs.Number.Interval

/-!
# Written Numbers Are Told Apart

Whatever a layout decides, what it writes for a number is a literal: read as one, it gives
the decimal that was written, and with it the number. So no two numbers that are finite are
written alike.

## Main statements

* `Layout.spelled?_digits` — a decimal that is written is read back;
* `Layout.write_injective` — a finite number is what it is written as.
-/

namespace Marquee.Number

open Float.Model (UnpackedFloat)
open Float.Model.UnpackedFloat (Sign)

namespace Literal

/-! ### Reading -/

/-- The decimal that a literal without a sign spells. -/
def spelled? (s : List Char) : Option Decimal := do
  let (whole, rest) := digits s
  let (part, rest) := fraction rest
  let power ← exponent? rest
  pure (.ofParts whole part power)

section Read

variable {ds ps : List Char} (rest : List Char)

/-- All of some digits are read, if no other digit follows them. -/
theorem digits_append (hds : ∀ c ∈ ds, c.isDigit) (hrest : ∀ c ∈ rest.head?, ¬ c.isDigit) :
    digits (ds ++ rest) = (ds, rest) := by
  have htake : rest.takeWhile Char.isDigit = [] ∧ rest.dropWhile Char.isDigit = rest := by
    rcases rest with _ | ⟨c, rest⟩
    · exact ⟨rfl, rfl⟩
    · have hc : ¬ c.isDigit := hrest c rfl
      rw [List.takeWhile_cons_of_neg hc, List.dropWhile_cons_of_neg hc]
      exact ⟨rfl, rfl⟩
  rw [digits, List.takeWhile_append_of_pos hds, List.dropWhile_append_of_pos hds, htake.1,
    htake.2, List.append_nil]

/-- Digits, a point, and digits. -/
theorem spelled?_point (hds : ∀ c ∈ ds, c.isDigit) (hps : ∀ c ∈ ps, c.isDigit)
    (hrest : ∀ c ∈ rest.head?, ¬ c.isDigit) :
    spelled? (ds ++ '.' :: (ps ++ rest)) = (exponent? rest).map (.ofParts ds ps) := by
  have hpoint : ∀ c ∈ ('.' :: (ps ++ rest)).head?, ¬ c.isDigit := by simp
  rw [spelled?, digits_append _ hds hpoint]
  simp only [fraction, digits_append rest hps hrest]
  cases exponent? rest <;> rfl

/-- Digits alone. -/
theorem spelled?_whole (hds : ∀ c ∈ ds, c.isDigit) (hrest : ∀ c ∈ rest.head?, ¬ c.isDigit)
    (hpoint : rest.head? ≠ some '.') :
    spelled? (ds ++ rest) = (exponent? rest).map (.ofParts ds []) := by
  have hfraction : fraction rest = ([], rest) := by
    rw [fraction]
    rintro s rfl
    exact hpoint rfl
  rw [spelled?, digits_append rest hds hrest]
  simp only [hfraction]
  cases exponent? rest <;> rfl

/-- The digits of a number are digits. -/
theorem isDigit_toDigits (n : Nat) : ∀ c ∈ Nat.toDigits 10 n, c.isDigit :=
  fun _ hc => Nat.isDigit_of_mem_toDigits (by decide) (by decide) hc

/-- Zeros are digits. -/
theorem isDigit_zeros (k : Nat) : ∀ c ∈ List.replicate k '0', c.isDigit := by
  intro c hc
  rw [List.eq_of_mem_replicate hc]
  rfl

/-- An exponent with its sign. -/
theorem exponent?_signed (e : Int) :
    exponent? ('e' :: (if e < 0 then '-' else '+') :: Nat.toDigits 10 e.natAbs) = some e := by
  have hdigits : digits (Nat.toDigits 10 e.natAbs) = (Nat.toDigits 10 e.natAbs, []) := by
    simpa using digits_append [] (isDigit_toDigits e.natAbs) (by simp)
  have hnat : Nat.ofDigitChars 10 (Nat.toDigits 10 e.natAbs) 0 = e.natAbs :=
    Nat.ofDigitChars_ten_toDigits
  rcases hds : Nat.toDigits 10 e.natAbs with _ | ⟨c, ds⟩
  · exact absurd hds Nat.toDigits_ne_nil
  · rw [hds] at hdigits hnat
    rw [exponent?, if_pos (.inl rfl)]
    by_cases hneg : e < 0
    · rw [if_pos hneg]
      simp only [signed, hdigits, hnat, if_true]
      exact congrArg some (by omega)
    · rw [if_neg hneg]
      simp only [signed, hdigits, hnat]
      rw [if_neg Bool.false_ne_true]
      exact congrArg some (by omega)

end Read

end Literal

namespace Layout

open Literal

/-! ### Digits that are placed or scaled -/

/-- The decimal of some digits, the first of which stands at an exponent. -/
def decimalAt (ds : List Char) (leading : Int) : Decimal :=
  ⟨Nat.ofDigitChars 10 ds 0, leading + 1 - ds.length⟩

section Digits

variable {ds : List Char} (hds : ∀ c ∈ ds, c.isDigit)

include hds

/-- Digits with a point spell the decimal, whatever zeros there are. -/
theorem spelled?_place (leading : Int) :
    ∃ d, spelled? (place ds leading) = some d ∧ d.value = (decimalAt ds leading).value := by
  rw [place]
  split
  · next hneg =>
    have hps : ∀ c ∈ List.replicate (-leading - 1).toNat '0' ++ ds, c.isDigit :=
      List.forall_mem_append.2 ⟨isDigit_zeros _, hds⟩
    have hzero : ∀ c ∈ ['0'], c.isDigit := List.forall_mem_singleton.2 rfl
    have hread := spelled?_point [] hzero hps (by simp)
    rw [List.append_nil] at hread
    refine ⟨_, hread, congrArg Decimal.value ?_⟩
    simp only [Decimal.ofParts, decimalAt, List.cons_append, List.nil_append, Nat.ofDigitChars_cons,
      Nat.ofDigitChars_append, Nat.ofDigitChars_replicate_zero, List.length_append,
      List.length_replicate, Decimal.mk.injEq]
    constructor
    · rfl
    · push_cast
      omega
  · split
    · next hlen =>
      have hwhole : ∀ c ∈ ds ++ List.replicate ((leading + 1).toNat - ds.length) '0', c.isDigit :=
        List.forall_mem_append.2 ⟨hds, isDigit_zeros _⟩
      have hzero : ∀ c ∈ ['0'], c.isDigit := List.forall_mem_singleton.2 rfl
      refine ⟨_, spelled?_point [] hwhole hzero (by simp), ?_⟩
      have hpower : ((leading + 1 - ds.length : Int)) =
          ((leading + 1).toNat - ds.length : Nat) := by omega
      have hdigits (k : Nat) : Nat.ofDigitChars 10 (ds ++ List.replicate k '0' ++ ['0']) 0 =
          10 * (10 ^ k * Nat.ofDigitChars 10 ds 0) := by
        rw [Nat.ofDigitChars_append, Nat.ofDigitChars_append, Nat.ofDigitChars_replicate_zero]
        rfl
      rw [Decimal.value, Decimal.value, Decimal.ofParts, decimalAt, hdigits, hpower, zpow_natCast]
      push_cast
      rw [List.length_singleton, zero_sub, Nat.cast_one, zpow_neg_one]
      ring
    · next hlen =>
      have htake : ∀ c ∈ ds.take (leading + 1).toNat, c.isDigit :=
        fun c hc => hds c (List.mem_of_mem_take hc)
      have hdrop : ∀ c ∈ ds.drop (leading + 1).toNat, c.isDigit :=
        fun c hc => hds c (List.mem_of_mem_drop hc)
      have hread := spelled?_point [] htake hdrop (by simp)
      rw [List.append_nil] at hread
      refine ⟨_, hread, congrArg Decimal.value ?_⟩
      rw [Decimal.ofParts, decimalAt, List.take_append_drop, List.length_drop, Decimal.mk.injEq]
      exact ⟨rfl, by omega⟩

/-- Digits with an exponent spell the decimal. -/
theorem spelled?_scale (hne : ds ≠ []) (leading : Int) :
    spelled? (scale ds leading) = some (decimalAt ds leading) := by
  have hone : ∀ c ∈ ds.take 1, c.isDigit := fun c hc => hds c (List.mem_of_mem_take hc)
  have hrest : ∀ c ∈ ds.drop 1, c.isDigit := fun c hc => hds c (List.mem_of_mem_drop hc)
  have hlen : 0 < ds.length := List.length_pos_iff.2 hne
  have hparts : Decimal.ofParts (ds.take 1) (ds.drop 1) leading = decimalAt ds leading := by
    rw [Decimal.ofParts, decimalAt, List.take_append_drop, List.length_drop, Decimal.mk.injEq]
    exact ⟨rfl, by omega⟩
  rw [scale, List.append_assoc]
  split
  · next hempty =>
    have hread := spelled?_whole
      ('e' :: (if leading < 0 then '-' else '+') :: Nat.toDigits 10 leading.natAbs) hone
      (by simp) (by simp)
    rw [exponent?_signed] at hread
    rw [List.nil_append, hread, ← hparts, List.isEmpty_iff.1 hempty]
    rfl
  · have hread := spelled?_point
      ('e' :: (if leading < 0 then '-' else '+') :: Nat.toDigits 10 leading.natAbs) hone hrest
      (by simp)
    rw [exponent?_signed] at hread
    rw [List.cons_append, hread, ← hparts]
    rfl

end Digits

/-- **A decimal that is written is read back**, up to zeros at its end. -/
theorem spelled?_digits (l : Layout) (d : Decimal) :
    ∃ r, spelled? (l.digits d).toList = some r ∧ r.value = d.value := by
  have hds := isDigit_toDigits d.digits
  have hdecimal : decimalAt (Nat.toDigits 10 d.digits)
      (d.exponent + (Nat.toDigits 10 d.digits).length - 1) = d := by
    rw [decimalAt, Nat.ofDigitChars_ten_toDigits]
    congr 1
    omega
  rw [digits, String.toList_ofList]
  split
  · obtain ⟨r, hr, hvalue⟩ := spelled?_place hds
      (d.exponent + (Nat.toDigits 10 d.digits).length - 1)
    exact ⟨r, hr, hdecimal ▸ hvalue⟩
  · refine ⟨_, spelled?_scale hds Nat.toDigits_ne_nil _, ?_⟩
    rw [hdecimal]

/-! ### Numbers -/

/-- Whether a sign is a minus. -/
def isMinus : Sign → Bool
  | .positive => false
  | .negative => true

/-- A number of some sign and magnitude is nearest to what was unpacked. -/
def Stands (negative : Bool) (x : ℚ) : UnpackedFloat → Prop
  | .zero sign => isMinus sign = negative ∧ x = 0
  | .finite sign m q _ => isMinus sign = negative ∧ (Interval.around m q).Holds x
  | _ => False

/-- Zero does not stand for any fraction. -/
theorem not_holds_zero {m : Nat} {q : Int} (pos : 0 < m) : ¬ (Interval.around m q).Holds 0 := by
  have hunit : (0 : ℚ) < 2 ^ (q - 2) := by positivity
  have hstep := Interval.stepBelow_le m q
  have hlower : (0 : ℚ) < 4 * m - Interval.stepBelow m q := by
    have : ((Interval.stepBelow m q + 1 : Nat) : ℚ) ≤ (4 * m : Nat) := Nat.cast_le.2 (by omega)
    push_cast at this
    linarith
  have := mul_pos hlower hunit
  rw [Interval.holds_around pos]
  split
  · exact fun h => absurd h.1 (not_le.2 this)
  · exact fun h => absurd h.1 (not_lt.2 this.le)

/-- What a literal spells has no sign. -/
theorem signed_of_spelled {s : List Char} {d : Decimal} (h : spelled? s = some d) :
    signed s = (false, s) := by
  fun_cases signed s with
  | case1 s => cases h
  | case2 s => cases h
  | case3 s => rfl

/-- A sign is known from whether it is a minus. -/
theorem isMinus_injective {s s' : Sign} (h : isMinus s = isMinus s') : s = s' := by
  cases s <;> cases s' <;> first | rfl | cases h

/-- What is written for a number is a literal of its sign, for a decimal that stands for it. -/
theorem stands_write (l : Layout) {x : Float32} (finite : x.isFinite) :
    ∃ d, spelled? (signed (l.write x).toList).2 = some d ∧
      Stands (signed (l.write x).toList).1 d.value x.toModel.unpack := by
  have hfinite : x.toModel.unpack.isFinite = true := finite
  rw [write]
  rcases hu : x.toModel.unpack with sign | _ | sign | ⟨sign, m, q, pos⟩
  · rw [hu] at hfinite
    cases hfinite
  · rw [hu] at hfinite
    cases hfinite
  · cases sign with
    | positive =>
      have hsigned : signed "0.0".toList = (false, ['0', '.', '0']) := by decide
      dsimp only
      rw [hsigned]
      exact ⟨⟨0, -1⟩, rfl, rfl, by simp [Decimal.value]⟩
    | negative =>
      have hsigned : signed "-0.0".toList = (true, ['0', '.', '0']) := by decide
      dsimp only
      rw [hsigned]
      exact ⟨⟨0, -1⟩, rfl, rfl, by simp [Decimal.value]⟩
  · have single : IsProper x.toModel.unpack := isProper_unpack _
    rw [hu] at single
    obtain ⟨d, hd, hvalue⟩ := l.spelled?_digits (l.shortest m q)
    have holds : (Interval.around m q).Holds d.value :=
      hvalue ▸ Interval.holds_shortest l.tie single
    cases sign with
    | positive =>
      dsimp only
      rw [signed_of_spelled hd]
      exact ⟨d, hd, rfl, holds⟩
    | negative =>
      dsimp only
      rw [String.toList_append]
      exact ⟨d, hd, rfl, holds⟩

/-- One number is nearest at most. -/
theorem eq_of_stands {u u' : UnpackedFloat} {negative : Bool} {x : ℚ} (proper : IsProper u)
    (proper' : IsProper u') (here : Stands negative x u) (there : Stands negative x u') :
    u = u' := by
  rcases u with _ | _ | sign | ⟨sign, m, q, pos⟩ <;> try exact here.elim
  all_goals rcases u' with _ | _ | sign' | ⟨sign', m', q', pos'⟩ <;> try exact there.elim
  all_goals obtain rfl : sign = sign' := isMinus_injective (here.1.trans there.1.symm)
  · rfl
  · exact absurd (here.2 ▸ there.2) (not_holds_zero pos')
  · exact absurd (there.2 ▸ here.2) (not_holds_zero pos)
  · obtain ⟨rfl, rfl⟩ := Interval.eq_of_holds proper proper' here.2 there.2
    rfl

/-- **A finite number is what it is written as.** -/
theorem write_injective (l : Layout) {x y : Float32} (hx : x.isFinite) (hy : y.isFinite)
    (h : l.write x = l.write y) : x = y := by
  obtain ⟨d, hd, here⟩ := stands_write l hx
  obtain ⟨d', hd', there⟩ := stands_write l hy
  rw [← h] at hd' there
  obtain rfl : d = d' := Option.some.inj (hd.symm.trans hd')
  exact unpack_injective (eq_of_stands (isProper_unpack _) (isProper_unpack _) here there)

/-! ### What a written number is made of -/

/-- The characters of written numbers. -/
def InNumeral (c : Char) : Prop := c.isDigit ∨ c ∈ ['.', 'e', '+', '-']

/-- The digits of a number may stand in a numeral. -/
theorem inNumeral_toDigits (n : Nat) : ∀ c ∈ Nat.toDigits 10 n, InNumeral c :=
  fun c hc => .inl (isDigit_toDigits n c hc)

/-- So may zeros. -/
theorem inNumeral_zeros (k : Nat) : ∀ c ∈ List.replicate k '0', InNumeral c :=
  fun c hc => .inl (isDigit_zeros k c hc)

section Made

variable {ds : List Char} (hds : ∀ c ∈ ds, InNumeral c) (leading : Int)

include hds

/-- A number with its point in place is a numeral. -/
theorem inNumeral_place : ∀ c ∈ place ds leading, InNumeral c := by
  have hzero : InNumeral '0' := .inl rfl
  have hpoint : InNumeral '.' := .inr (by decide)
  rw [place]
  split
  · simp only [List.forall_mem_cons, List.forall_mem_append]
    exact ⟨hzero, hpoint, inNumeral_zeros _, hds⟩
  · split
    · simp only [List.forall_mem_cons, List.forall_mem_append]
      exact ⟨⟨hds, inNumeral_zeros _⟩, hpoint, hzero, List.forall_mem_nil _⟩
    · simp only [List.forall_mem_cons, List.forall_mem_append]
      exact ⟨fun c hc => hds c (List.mem_of_mem_take hc), hpoint,
        fun c hc => hds c (List.mem_of_mem_drop hc)⟩

/-- So is a number with an exponent. -/
theorem inNumeral_scale : ∀ c ∈ scale ds leading, InNumeral c := by
  have hpoint : InNumeral '.' := .inr (by decide)
  have hsign : InNumeral (if leading < 0 then '-' else '+') := by
    split
    · exact .inr (by decide)
    · exact .inr (by decide)
  rw [scale]
  simp only [List.forall_mem_append, List.forall_mem_cons]
  refine ⟨⟨fun c hc => hds c (List.mem_of_mem_take hc), ?_⟩, .inr (by decide), hsign,
    inNumeral_toDigits _⟩
  split
  · exact List.forall_mem_nil _
  · exact List.forall_mem_cons.2 ⟨hpoint, fun c hc => hds c (List.mem_of_mem_drop hc)⟩

end Made

/-- A layout writes one or the other. -/
theorem inNumeral_digits (l : Layout) (d : Decimal) :
    ∀ c ∈ (l.digits d).toList, InNumeral c := by
  rw [digits, String.toList_ofList]
  split
  · exact inNumeral_place (inNumeral_toDigits _) _
  · exact inNumeral_scale (inNumeral_toDigits _) _

/-- Whatever is written for a finite number is a numeral, with its sign. -/
theorem inNumeral_write (l : Layout) {x : Float32} (finite : x.isFinite) :
    ∀ c ∈ (l.write x).toList, InNumeral c := by
  have hfinite : x.toModel.unpack.isFinite = true := finite
  have hdigits : ∀ c ∈ "0.0".toList, InNumeral c := by
    simp [InNumeral]
  rw [write]
  split
  all_goals rename_i hu
  · rw [hu] at hfinite
    cases hfinite
  · rw [hu] at hfinite
    cases hfinite
  · rw [hu] at hfinite
    cases hfinite
  · exact hdigits
  · rw [show "-0.0".toList = '-' :: "0.0".toList from rfl]
    exact List.forall_mem_cons.2 ⟨.inr (by decide), hdigits⟩
  · exact l.inNumeral_digits _
  · rw [String.toList_append]
    exact List.forall_mem_cons.2 ⟨.inr (by decide), l.inNumeral_digits _⟩

end Layout

end Marquee.Number
