import Marquee.Proofs.Number.Numeral
import Marquee.Proofs.Number.Rounding
import Marquee.Toml.Scalar

/-!
# Written Numbers Are Read Back

A whole number is written with its digits, and any other with a point among them; so a reader
tells one from the other, and finds no digit too many in either. What is not finite is written
as a word.

A number that is written with a point is read as a double and then narrowed. Whether this gives
the number again depends on which digits were chosen and on how they are rounded. Zeros and what
is not finite always come back.

## Main statements

* `ofToken?_word` — whole numbers;
* `pointed_digits` — what is written for a fraction is a number with a point;
* `ofToken?_single` — numbers of single precision.
-/

namespace Marquee.Toml.Scalar

open Number

/-! ### Digits -/

section Digits

variable {ds ps : List Char}

/-- The first digit of a number is not a superfluous zero. -/
theorem head?_toDigits {n : ℕ} (pos : 0 < n) : (Nat.toDigits 10 n).head? ≠ some '0' := by
  induction n using Nat.strong_induction_on with
  | _ n ih =>
    rcases lt_or_ge n 10 with hlt | hle
    · rw [Nat.toDigits_of_lt_base hlt]
      interval_cases n <;> decide
    · have hrest := ih (n / 10) (by omega) (by omega)
      rw [Nat.toDigits_of_base_le (by decide) hle,
        List.head?_append_of_ne_nil _ Nat.toDigits_ne_nil]
      exact hrest

/-- Digits without underscores. -/
theorem grouped?_digits (hds : ∀ c ∈ ds, c.isDigit) (hne : ds ≠ []) :
    grouped? Char.isDigit ds = some ds := by
  induction ds with
  | nil => exact absurd rfl hne
  | cons c ds ih =>
    obtain ⟨hc, hds⟩ := List.forall_mem_cons.1 hds
    rcases ds with _ | ⟨d, ds⟩
    · rw [grouped?, if_pos hc]
    · rw [grouped?, if_pos hc, ih hds (List.cons_ne_nil d ds)]
      · rfl
      · exact List.cons_ne_nil d ds
      · rintro s ⟨⟩
        cases hds '_' List.mem_cons_self

/-- Anything but digits and underscores is in the way. -/
theorem grouped?_eq_none {isDigit : Char → Bool} {c : Char} {s : List Char} (hmem : c ∈ s)
    (hdigit : ¬ isDigit c) (hunderscore : c ≠ '_') : grouped? isDigit s = none := by
  fun_induction grouped? isDigit s with
  | case1 => cases hmem
  | case2 d h =>
    obtain rfl := List.mem_singleton.1 hmem
    exact absurd h hdigit
  | case3 | case5 | case7 => rfl
  | case4 d s h ih =>
    have hs : c ∈ s := by
      rcases List.mem_cons.1 hmem with rfl | hmem
      · exact absurd h hdigit
      · exact (List.mem_cons.1 hmem).resolve_left hunderscore
    rw [ih hs]
    rfl
  | case6 d s _ _ h ih =>
    rcases List.mem_cons.1 hmem with rfl | hmem
    · exact absurd h hdigit
    · rw [ih hmem]
      rfl

/-- Digits without a leading zero are a decimal. -/
theorem decimal?_digits (hds : ∀ c ∈ ds, c.isDigit) (hne : ds ≠ [])
    (hzero : ds.head? = some '0' → ds = ['0']) : decimal? ds = some ds := by
  have hwhole : ¬ (ds.head? = some '0' ∧ 1 < ds.length) := by
    rintro ⟨hhead, hlength⟩
    rw [hzero hhead] at hlength
    exact absurd hlength (by decide)
  rw [decimal?, grouped?_digits hds hne]
  exact if_neg hwhole

end Digits

/-! ### Whole numbers -/

/-- What begins with a digit has no sign. -/
theorem signed_of_digit {c : Char} (s : List Char) (hc : c.isDigit) :
    signed (c :: s) = (false, c :: s) := by
  rw [signed]
  · rintro s ⟨⟩
    cases hc
  · rintro s ⟨⟩
    cases hc

/-- **A whole number** is read from its digits. -/
theorem integer?_toDigits (n : ℕ) : integer? (Nat.toDigits 10 n) = some (n : ℤ) := by
  rcases Nat.eq_zero_or_pos n with rfl | pos
  · rfl
  have hdigits := Literal.isDigit_toDigits n
  have hhead := head?_toDigits pos
  have hdecimal := decimal?_digits hdigits Nat.toDigits_ne_nil fun h => absurd h hhead
  have hvalue : Nat.ofDigitChars 10 (Nat.toDigits 10 n) 0 = n := Nat.ofDigitChars_ten_toDigits
  rcases hds : Nat.toDigits 10 n with _ | ⟨c, ds⟩
  · exact absurd hds Nat.toDigits_ne_nil
  rw [hds] at hdigits hhead hdecimal hvalue
  have hzero : c ≠ '0' := fun h => hhead (congrArg some h)
  rw [integer?, signed_of_digit ds (hdigits c List.mem_cons_self)]
  · dsimp only
    rw [hdecimal]
    exact congrArg (fun k : ℕ => some (k : ℤ)) hvalue
  all_goals
    rintro s ⟨⟩
    exact hzero rfl

/-- Taking the sign off takes no point off. -/
theorem point_mem_signed {s : List Char} (h : '.' ∈ s) : '.' ∈ (signed s).2 := by
  fun_cases signed s with
  | case1 s | case2 s => exact (List.mem_cons.1 h).resolve_left (by decide)
  | case3 => exact h

/-- Nothing with a point is a whole number. -/
theorem integer?_eq_none {s : List Char} (h : '.' ∈ s) : integer? s = none := by
  have behind {a b : Char} {s : List Char} (h : '.' ∈ a :: b :: s) (ha : '.' ≠ a)
      (hb : '.' ≠ b) : '.' ∈ s :=
    (List.mem_cons.1 ((List.mem_cons.1 h).resolve_left ha)).resolve_left hb
  have based {base : ℕ} {isDigit : Char → Bool} {s : List Char} (h : '.' ∈ s)
      (hdigit : ¬ isDigit '.') : based? base isDigit s = none := by
    rw [based?, grouped?_eq_none h hdigit (by decide)]
    rfl
  rw [integer?.eq_def]
  split
  · exact based (behind h (by decide) (by decide)) (by decide)
  · exact based (behind h (by decide) (by decide)) (by decide)
  · exact based (behind h (by decide) (by decide)) (by decide)
  · have hbody := point_mem_signed h
    generalize signed s = r at hbody
    obtain ⟨negative, body⟩ := r
    dsimp only
    rw [decimal?, grouped?_eq_none hbody (by decide) (by decide)]
    rfl

/-! ### Numbers with a point -/

/-- Digits with a point among them, as a number is written. -/
inductive Pointed : List Char → Prop
  | intro {ds ps : List Char} (whole : ∀ c ∈ ds, c.isDigit) (whole_ne : ds ≠ [])
    (no_zero : ds.head? = some '0' → ds = ['0']) (part : ∀ c ∈ ps, c.isDigit) (part_ne : ps ≠ []) :
    Pointed (ds ++ '.' :: ps)

/-- A digit marks no exponent. -/
theorem isExponentMark_of_digit {c : Char} (hc : c.isDigit) : isExponentMark c = false := by
  rcases eq_or_ne c 'e' with rfl | he
  · cases hc
  rcases eq_or_ne c 'E' with rfl | hE
  · cases hc
  simp [isExponentMark, he, hE]

/-- Such a number is read. -/
theorem Pointed.exists_decimal {s : List Char} (h : Pointed s) : ∃ d, pointed? s = some d := by
  obtain ⟨whole, whole_ne, no_zero, part, part_ne⟩ := h
  rename_i ds ps
  have hmark : ∀ c ∈ ds ++ '.' :: ps, !isExponentMark c := by
    intro c hc
    rw [Bool.not_eq_true']
    rcases List.mem_append.1 hc with hc | hc
    · exact isExponentMark_of_digit (whole c hc)
    rcases List.mem_cons.1 hc with rfl | hc
    · decide
    · exact isExponentMark_of_digit (part c hc)
  have hpoint : ∀ c ∈ ds, c != '.' := by
    intro c hc
    rw [bne_iff_ne]
    rintro rfl
    cases whole '.' hc
  have hmantissa : (ds ++ '.' :: ps).takeWhile (!isExponentMark ·) = ds ++ '.' :: ps :=
    List.takeWhile_eq_self_iff.2 hmark
  have hpower : (ds ++ '.' :: ps).dropWhile (!isExponentMark ·) = [] :=
    List.dropWhile_eq_nil_iff.2 hmark
  have htake : (ds ++ '.' :: ps).takeWhile (· != '.') = ds := by
    rw [List.takeWhile_append_of_pos hpoint, List.takeWhile_cons_of_neg (by decide),
      List.append_nil]
  have hdrop : (ds ++ '.' :: ps).dropWhile (· != '.') = '.' :: ps := by
    rw [List.dropWhile_append_of_pos hpoint, List.dropWhile_cons_of_neg (by decide)]
  refine ⟨.ofParts ds ps 0, ?_⟩
  rw [pointed?]
  simp only [hmantissa, hpower, htake, hdrop, decimal?_digits whole whole_ne no_zero]
  simp [grouped?_digits part part_ne]

/-- A number with a point has one. -/
theorem Pointed.point_mem {s : List Char} (h : Pointed s) : '.' ∈ s := by
  cases h
  simp

/-- A number with a point, without a sign, has no sign to take off. -/
theorem Pointed.signed {s : List Char} (h : Pointed s) : signed s = (false, s) := by
  obtain ⟨whole, whole_ne, -, -, -⟩ := h
  rename_i ds ps
  obtain ⟨c, ds, rfl⟩ := List.exists_cons_of_ne_nil whole_ne
  exact signed_of_digit _ (whole c List.mem_cons_self)

/-- Digits with a point among, before or behind them. -/
theorem pointed_place {ds : List Char} (hds : ∀ c ∈ ds, c.isDigit) (hne : ds ≠ [])
    (hzero : ds.head? ≠ some '0') (leading : ℤ) : Pointed (Layout.place ds leading) := by
  have zeros := Literal.isDigit_zeros
  have zero : ∀ c ∈ ['0'], c.isDigit := List.forall_mem_singleton.2 rfl
  have hlength := List.length_pos_iff.2 hne
  rw [Layout.place]
  split_ifs with hneg hshort
  · exact .intro zero (by decide) (fun _ => rfl) (List.forall_mem_append.2 ⟨zeros _, hds⟩)
      (List.append_ne_nil_of_right_ne_nil _ hne)
  · refine .intro (List.forall_mem_append.2 ⟨hds, zeros _⟩)
      (List.append_ne_nil_of_left_ne_nil hne _) (fun h => ?_) zero (by decide)
    rw [List.head?_append_of_ne_nil _ hne] at h
    exact absurd h hzero
  · obtain ⟨k, hk⟩ : ∃ k, (leading + 1).toNat = k + 1 := ⟨leading.toNat, by omega⟩
    rw [hk] at hshort ⊢
    refine .intro (fun c hc => hds c (List.mem_of_mem_take hc)) ?_ (fun h => ?_)
      (fun c hc => hds c (List.mem_of_mem_drop hc)) ?_
    · exact List.ne_nil_of_length_pos (by rw [List.length_take]; omega)
    · rw [List.head?_take, if_neg (Nat.succ_ne_zero k)] at h
      exact absurd h hzero
    · exact List.ne_nil_of_length_pos (by rw [List.length_drop]; omega)

/-- **What is written for a fraction** is a number with a point. -/
theorem pointed_digits {d : Decimal} (pos : 0 < d.digits) :
    Pointed (Layout.toml.digits d).toList := by
  rw [Layout.digits, String.toList_ofList]
  exact pointed_place (Literal.isDigit_toDigits _) Nat.toDigits_ne_nil (head?_toDigits pos) _

/-- The decimal of a fraction is not zero. -/
theorem digits_shortest_pos {m : ℕ} {q : ℤ} (single : IsSingle m q) :
    0 < (Layout.toml.shortest m q).digits := by
  have holds : (Interval.around m q).Holds (Layout.toml.shortest m q).value :=
    Interval.holds_shortest Layout.toml.tie single
  refine Nat.pos_of_ne_zero fun h => ?_
  rw [Decimal.value, h, Nat.cast_zero, zero_mul] at holds
  exact Layout.not_holds_zero single.pos holds

/-! ### Tokens -/

/-- What has a point is read as its decimal, and must not be too large. -/
theorem real?_of_point {s : List Char} (h : '.' ∈ s) :
    real? s = (pointed? (signed s).2).bind fun d =>
      let x := d.toDouble (signed s).1
      if x.isInf then none else some x := by
  have hbody := point_mem_signed h
  rw [real?]
  generalize signed s = r at hbody ⊢
  obtain ⟨negative, body⟩ := r
  dsimp only at hbody ⊢
  split
  next heq =>
    rw [← String.toList_inj, String.toList_ofList] at heq
    rw [heq] at hbody
    exact absurd hbody (by decide)
  next heq =>
    rw [← String.toList_inj, String.toList_ofList] at heq
    rw [heq] at hbody
    exact absurd hbody (by decide)
  next => rfl

/-- A token with a point is no whole number, if it is a number. -/
theorem ofToken?_of_point {s : List Char} {x : Float} (h : '.' ∈ s) (hreal : real? s = some x) :
    ofToken? s = some (.real x) := by
  rw [ofToken?]
  split
  next heq =>
    rw [← String.toList_inj, String.toList_ofList] at heq
    rw [heq] at h
    exact absurd h (by decide)
  next heq =>
    rw [← String.toList_inj, String.toList_ofList] at heq
    rw [heq] at h
    exact absurd h (by decide)
  next => rw [integer?_eq_none h, hreal]

/-- **A whole number** is told from its digits. -/
theorem ofToken?_word (n : UInt32) :
    ofToken? (Nat.toDigits 10 n.toNat) = some (.whole n.toNat) := by
  have hdigits := Literal.isDigit_toDigits n.toNat
  have hinteger := integer?_toDigits n.toNat
  have hlt := n.toNat_lt
  rw [ofToken?]
  split
  next heq =>
    rw [← String.toList_inj, String.toList_ofList] at heq
    rw [heq] at hdigits
    exact absurd (hdigits 't' (by decide)) (by decide)
  next heq =>
    rw [← String.toList_inj, String.toList_ofList] at heq
    rw [heq] at hdigits
    exact absurd (hdigits 'f' (by decide)) (by decide)
  next =>
    rw [hinteger]
    refine if_pos ⟨?_, ?_⟩
    · exact le_trans (by decide) (Int.natCast_nonneg _)
    · exact_mod_cast hlt.trans (by decide)

/-! ### Numbers of single precision -/

/-- The double that a number is read as, once it is written. -/
def wide (x : Float32) : Float := (real? (Layout.toml.write x).toList).getD 0

/-- The digits that are written for a fraction are read as a double near enough to be narrowed
to that fraction. -/
def Rereads (x : Float32) : Prop :=
  x.isFinite → ¬ x == 0 → ∀ d ∈ pointed? (signed (Layout.toml.write x).toList).2,
    narrow (d.toDouble (signed (Layout.toml.write x).toList).1) = x

instance : DecidablePred Rereads := fun x =>
  inferInstanceAs <| Decidable <|
    x.isFinite → ¬ x == 0 → ∀ d ∈ pointed? (signed (Layout.toml.write x).toList).2,
      narrow (d.toDouble (signed (Layout.toml.write x).toList).1) = x

open Float.Model (Format UnpackedFloat)
open Float.Model.UnpackedFloat

/-- Packing twice makes no difference. -/
theorem unpack_ofBits (y : UnpackedFloat) :
    (Float32.ofBits (.ofBitVec (pack .binary32 y))).toModel.unpack =
      unpack .binary32 (pack .binary32 y) :=
  congrArg (unpack .binary32) (pack_unpack_of_valid valid_pack)

/-- Infinity of either sign stays infinite when it is narrowed. -/
theorem narrow_infinity {f : Float} {s : Sign} (h : f.toModel.unpack = .infinity s) :
    (narrow f).toModel.unpack = .infinity s := by
  have hbits : unpack .binary64 f.toBits.toBitVec = .infinity s := h
  rw [narrow, hbits]
  exact (unpack_ofBits (.infinity s)).trans (unpack_packedInfinity s)

/-- An undefined double stays undefined. -/
theorem narrow_nan {f : Float} (h : f.toModel.unpack = .notANumber) :
    (narrow f).toModel.unpack = .notANumber := by
  have hbits : unpack .binary64 f.toBits.toBitVec = .notANumber := h
  rw [narrow, hbits]
  exact (unpack_ofBits .notANumber).trans unpack_packedNaN

/-- A double that is narrowed to a finite number is not infinite. -/
theorem not_isInf_of_narrow {f : Float} (h : (narrow f).isFinite) : ¬ f.isInf := by
  intro hinf
  have hmodel : f.toModel.unpack.isInf := hinf
  have hfinite : (narrow f).toModel.unpack.isFinite := h
  rcases hf : f.toModel.unpack with s | - | s | ⟨s, m, q, hm⟩
  · rw [narrow_infinity hf] at hfinite
    cases hfinite
  all_goals
    rw [hf] at hmodel
    cases hmodel

/-- What is written for a finite number has a point, and digits where they belong. -/
theorem exists_decimal_of_finite {x : Float32} {s : Sign} {m : ℕ} {q : ℤ} {hm : 0 < m}
    (hx : x.toModel.unpack = .finite s m q hm) : '.' ∈ (Layout.toml.write x).toList ∧
      ∃ d, pointed? (signed (Layout.toml.write x).toList).2 = some d := by
  have single : IsProper x.toModel.unpack := isProper_toModel x
  rw [hx] at single
  have body := pointed_digits (digits_shortest_pos single)
  rw [Layout.write, hx]
  cases s with
  | positive =>
    dsimp only
    rw [body.signed]
    exact ⟨body.point_mem, body.exists_decimal⟩
  | negative =>
    dsimp only
    rw [String.toList_append]
    exact ⟨List.mem_append_right _ body.point_mem, body.exists_decimal⟩

/-- **A number of single precision** is read and narrowed again: the token is read as a double,
which is narrowed to the number. -/
theorem ofToken?_single {x : Float32} (rereads : Rereads x) :
    ofToken? (Layout.toml.write x).toList = some (.real (wide x)) ∧ narrow (wide x) = x := by
  suffices h : ∃ f, real? (Layout.toml.write x).toList = some f ∧
      ofToken? (Layout.toml.write x).toList = some (.real f) ∧ narrow f = x by
    obtain ⟨f, hreal, htoken, hnarrow⟩ := h
    rw [wide, hreal]
    exact ⟨htoken, hnarrow⟩
  rcases hx : x.toModel.unpack with s | - | s | ⟨s, m, q, hm⟩
  · cases s with
    | positive =>
      have hwrite : Layout.toml.write x = "inf" := by rw [Layout.write, hx]; rfl
      rw [hwrite]
      exact ⟨1 / 0, rfl, rfl, unpack_injective ((narrow_infinity rfl).trans hx.symm)⟩
    | negative =>
      have hwrite : Layout.toml.write x = "-inf" := by rw [Layout.write, hx]; rfl
      rw [hwrite]
      exact ⟨-1 / 0, rfl, rfl, unpack_injective ((narrow_infinity rfl).trans hx.symm)⟩
  · have hwrite : Layout.toml.write x = "nan" := by rw [Layout.write, hx]; rfl
    rw [hwrite]
    exact ⟨0 / 0, rfl, rfl, unpack_injective ((narrow_nan rfl).trans hx.symm)⟩
  · cases s with
    | positive =>
      have hwrite : Layout.toml.write x = "0.0" := by rw [Layout.write, hx]
      rw [hwrite]
      exact ⟨0, rfl, rfl, unpack_injective hx.symm⟩
    | negative =>
      have hwrite : Layout.toml.write x = "-0.0" := by rw [Layout.write, hx]
      rw [hwrite]
      exact ⟨-0, rfl, rfl, unpack_injective hx.symm⟩
  · have finite : x.toModel.unpack.isFinite := by rw [hx]; rfl
    have nonzero : ¬ x.toModel.unpack.beq (.zero .positive) := by
      rw [hx]
      cases s <;> exact Bool.false_ne_true
    obtain ⟨hpoint, d, hd⟩ := exists_decimal_of_finite hx
    have hnarrow := rereads finite nonzero d hd
    have hreal : real? (Layout.toml.write x).toList =
        some (d.toDouble (signed (Layout.toml.write x).toList).1) := by
      rw [real?_of_point hpoint, hd]
      exact if_neg (not_isInf_of_narrow (hnarrow.symm ▸ finite))
    exact ⟨_, hreal, ofToken?_of_point hpoint hreal, hnarrow⟩

end Marquee.Toml.Scalar
