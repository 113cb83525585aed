import Marquee.Color
import Marquee.Proofs.Text.Bytes
import Mathlib.Data.List.TakeWhile

/-!
# Colors in Hexadecimal

A color is written as number signs and six hexadecimal digits, two to a channel. Every text that is
so written is read as its color. The reading lets two more things happen. It takes a plus sign for
the first digit of a pair, and it counts bytes: six bytes may be fewer than six characters, and
then a pair can end inside one of them, which stops the reading altogether. All else is refused as
malformed.

## Main statements

* `pair_eq_ok_iff` — which two characters a pair of bytes is read from;
* `ofHex_eq_ok_iff` — the texts that are read;
* `ofHex_eq_cutCharacter_iff` — the texts that stop the reading;
* `ofHex_reads` — **exactly the written colors** are read, but for these two.
-/

namespace Marquee.Color

open Text

/-! ### Written colors -/

/-- A hexadecimal digit and its value. -/
def IsDigit (c : Char) (n : Nat) : Prop :=
  "0123456789abcdef".toList[n]? = some c ∨ "0123456789ABCDEF".toList[n]? = some c

instance (c : Char) (n : Nat) : Decidable (IsDigit c n) :=
  inferInstanceAs (Decidable (_ ∨ _))

/-- Two digits and the byte they spell. -/
def Spells (x y : Char) (b : UInt8) : Prop :=
  ∃ high low, IsDigit x high ∧ IsDigit y low ∧ b.toNat = 16 * high + low

/-- A plus sign, a digit and its value. -/
def Signed (x y : Char) (b : UInt8) : Prop := x = '+' ∧ IsDigit y b.toNat

/-- What a pair is read as. -/
def Reads (x y : Char) (b : UInt8) : Prop := Spells x y b ∨ Signed x y b

/-- Three pairs of characters, each with one channel of a color. -/
def Pairs (R : Char → Char → UInt8 → Prop) (cs : List Char) (c : Color) : Prop :=
  ∃ r r' g g' b b', cs = [r, r', g, g', b, b'] ∧ R r r' c.red ∧ R g g' c.green ∧ R b b' c.blue

/-- Any number of number signs, and three pairs. -/
def Written (R : Char → Char → UInt8 → Prop) (text : String) (c : Color) : Prop :=
  ∃ n cs, text.toList = List.replicate n '#' ++ cs ∧ Pairs R cs c

/-- The characters behind the number signs. -/
def body (text : String) : List Char := text.toList.dropWhile (· == '#')

/-- Six bytes stand behind the number signs, and a pair ends inside a character: the first one,
or the second one after a first that is read. -/
def Torn (text : String) : Prop :=
  ((body text).map Char.utf8Size).sum = 6 ∧
    (¬ EndsAt (body text) 2 ∨
      (∃ x y more b, body text = x :: y :: more ∧ Reads x y b) ∧ ¬ EndsAt (body text) 4)

/-! ### Digits -/

/-- A hexadecimal digit is worth less than sixteen. -/
theorem IsDigit.lt {c : Char} {n : Nat} (h : IsDigit c n) : n < 16 := by
  rcases h with h | h
  · exact (List.getElem?_eq_some_iff.1 h).1
  · exact (List.getElem?_eq_some_iff.1 h).1

/-- What digits there are, with their bytes. -/
theorem IsDigit.digit? {c : Char} {n : Nat} (h : IsDigit c n) :
    c.toNat < 128 ∧ Color.digit? (.ofNat c.toNat) = some (.ofNat n) := by
  have hall : ∀ p ∈ "0123456789abcdef".toList.zipIdx ++ "0123456789ABCDEF".toList.zipIdx,
      p.1.toNat < 128 ∧ Color.digit? (.ofNat p.1.toNat) = some (.ofNat p.2) := by
    decide +kernel
  refine hall (c, n) (List.mem_append.2 ?_)
  rwa [List.mk_mem_zipIdx_iff_getElem?, List.mk_mem_zipIdx_iff_getElem?]

/-- A byte that is read as no digit is that of none. -/
theorem not_isDigit {c : Char} {n : Nat} (h : Color.digit? (.ofNat c.toNat) = none) :
    ¬ IsDigit c n := fun hc => by
  rw [hc.digit?.2] at h
  cases h

/-- A byte that is read as a digit is that of one. -/
theorem isDigit_of_digit? {b v : UInt8} (h : Color.digit? b = some v) :
    b.toNat < 128 ∧ IsDigit (.ofNat b.toNat) v.toNat := by
  have hall : ∀ n < 256, ∀ v ∈ Color.digit? (.ofNat n), n < 128 ∧ IsDigit (.ofNat n) v.toNat := by
    decide +kernel
  have hb := hall b.toNat b.toNat_lt
  rw [UInt8.ofNat_toNat] at hb
  exact hb v h

/-- A character of one byte is read as a digit exactly if it is one. -/
theorem digit?_eq_some_iff {c : Char} {b v : UInt8} (h : c.toNat = b.toNat) :
    Color.digit? b = some v ↔ IsDigit c v.toNat := by
  constructor
  · intro hv
    rw [← Char.ofNat_toNat c, h]
    exact (isDigit_of_digit? hv).2
  · intro hc
    have hv := hc.digit?.2
    rwa [h, UInt8.ofNat_toNat, UInt8.ofNat_toNat] at hv

/-! ### Pairs -/

variable {x y : Char} {a b r : UInt8}

/-- Both characters of a pair that is read are of the lower half. -/
theorem Reads.ascii (h : Reads x y r) : x.toNat < 128 ∧ y.toNat < 128 := by
  rcases h with ⟨high, low, hx, hy, -⟩ | ⟨rfl, hy⟩
  · exact ⟨hx.digit?.1, hy.digit?.1⟩
  · exact ⟨by decide, hy.digit?.1⟩

/-- A pair that is read does not begin with a number sign. -/
theorem Reads.ne_sign (h : Reads x y r) : x ≠ '#' := by
  rintro rfl
  rcases h with ⟨high, low, hx, -⟩ | ⟨hx, -⟩
  · exact not_isDigit rfl hx
  · cases hx

/-- A character of the lower half is one byte. -/
theorem bytes_ascii (hx : x.toNat < 128) (cs : List Char) :
    bytes (x :: cs) = .ofNat x.toNat :: bytes cs := by
  rcases encode_cases x with ⟨-, henc⟩ | ⟨hge, -⟩
  · rw [bytes_cons, henc, List.singleton_append]
  · omega

/-- Bytes of the lower half are one character each. -/
theorem eq_of_bytes_cons {cs : List Char} {more : List UInt8} (h : bytes cs = a :: more)
    (low : a.toNat < 128) : ∃ x ds, cs = x :: ds ∧ x.toNat = a.toNat ∧ bytes ds = more := by
  rcases cs with _ | ⟨x, ds⟩
  · cases h
  obtain ⟨b, rest, henc, -⟩ := exists_encode x
  rw [bytes_cons, henc, List.cons_append] at h
  obtain ⟨rfl, hmore⟩ := List.cons.inj h
  obtain ⟨rfl, hx⟩ := eq_of_encode henc low
  exact ⟨x, ds, rfl, hx, hmore⟩

/-- Two digits make a byte without overflow. -/
theorem toNat_digits {high low : Nat} (hhigh : high < 16) (hlow : low < 16) :
    (UInt8.ofNat high * 16 + UInt8.ofNat low).toNat = 16 * high + low := by
  simp only [UInt8.toNat_add, UInt8.toNat_mul, UInt8.toNat_ofNat', UInt8.reduceToNat]
  omega

/-- Two characters are read as the pair that they are. -/
theorem Reads.pair (h : Reads x y r) : Color.pair (.ofNat x.toNat) (.ofNat y.toNat) = .ok r := by
  rcases h with ⟨high, low, hx, hy, hr⟩ | ⟨rfl, hy⟩
  · have hplus : UInt8.ofNat x.toNat ≠ 43 := fun h => not_isDigit (by rw [h]; rfl) hx
    rw [Color.pair, if_neg hplus, hx.digit?.2, hy.digit?.2]
    refine congrArg Except.ok (UInt8.toNat_inj.1 ?_)
    rw [hr, toNat_digits hx.lt hy.lt]
  · have hplus : UInt8.ofNat '+'.toNat = 43 := rfl
    rw [Color.pair, if_pos hplus, hy.digit?.2, UInt8.ofNat_toNat]
    exact congrArg Except.ok (by rw [UInt8.zero_mul, UInt8.zero_add])

/-- They take one byte each. -/
theorem Reads.bytes (h : Reads x y r) (cs : List Char) :
    Text.bytes (x :: y :: cs) = .ofNat x.toNat :: .ofNat y.toNat :: Text.bytes cs := by
  rw [bytes_ascii h.ascii.1, bytes_ascii h.ascii.2]

/-- A pair that is read does not begin inside a character. -/
theorem Reads.not_continues (h : Reads x y r) : ¬ Continues (.ofNat x.toNat) := by
  have hx := h.ascii.1
  rw [continues_iff_range, UInt8.toNat_ofNat']
  omega

/-- The bytes of a pair that is read: a plus sign or a digit, and a digit. -/
theorem exists_of_pair (h : Color.pair a b = .ok r) : ∃ low, Color.digit? b = some low ∧
    (a = 43 ∧ r = low ∨ ∃ high, Color.digit? a = some high ∧ r = high * 16 + low) := by
  rw [Color.pair] at h
  split at h
  · next high low hfirst hlow =>
    have hr : high * 16 + low = r := Except.ok.inj h
    refine ⟨low, hlow, ?_⟩
    by_cases ha : a = 43
    · rw [if_pos ha] at hfirst
      obtain rfl : 0 = high := Option.some.inj hfirst
      exact .inl ⟨ha, by rw [← hr, UInt8.zero_mul, UInt8.zero_add]⟩
    · rw [if_neg ha] at hfirst
      exact .inr ⟨high, hfirst, hr.symm⟩
  · cases h

/-- **The characters of a pair** that is read: a plus sign or a digit, and a digit. -/
theorem pair_eq_ok_iff {cs : List Char} {more : List UInt8} (h : bytes cs = a :: b :: more) :
    Color.pair a b = .ok r ↔ ∃ x y ds, cs = x :: y :: ds ∧ bytes ds = more ∧ Reads x y r := by
  constructor
  · intro hpair
    obtain ⟨low, hlow, hfirst⟩ := exists_of_pair hpair
    have ha : a.toNat < 128 := by
      rcases hfirst with ⟨rfl, -⟩ | ⟨high, hhigh, -⟩
      · decide
      · exact (isDigit_of_digit? hhigh).1
    obtain ⟨x, ds, rfl, hx, hds⟩ := eq_of_bytes_cons h ha
    obtain ⟨y, es, rfl, hy, hes⟩ := eq_of_bytes_cons hds (isDigit_of_digit? hlow).1
    have hdigit := (digit?_eq_some_iff hy).1 hlow
    refine ⟨x, y, es, rfl, hes, ?_⟩
    rcases hfirst with ⟨rfl, rfl⟩ | ⟨high, hhigh, rfl⟩
    · exact .inr ⟨Char.toNat_inj.1 hx, hdigit⟩
    · have hfirst := (digit?_eq_some_iff hx).1 hhigh
      refine .inl ⟨_, _, hfirst, hdigit, ?_⟩
      rw [← toNat_digits hfirst.lt hdigit.lt, UInt8.ofNat_toNat, UInt8.ofNat_toNat]
  · rintro ⟨x, y, ds, rfl, -, hreads⟩
    rw [hreads.bytes] at h
    obtain ⟨ha, hrest⟩ := List.cons.inj h
    obtain ⟨hb, -⟩ := List.cons.inj hrest
    rw [← ha, ← hb]
    exact hreads.pair

/-! ### Six bytes -/

/-- Two steps succeed if the first does and the second does with its result. -/
theorem bind_eq_ok_iff {ε α β : Type} {u : Except ε α} {k : α → Except ε β} {z : β} :
    u >>= k = .ok z ↔ ∃ v, u = .ok v ∧ k v = .ok z := by
  cases u <;> simp [bind, Except.bind]

/-- Two steps fail with the first, or with the second if the first succeeds. -/
theorem bind_eq_error_iff {ε α β : Type} {u : Except ε α} {k : α → Except ε β} {t : ε} :
    u >>= k = .error t ↔ u = .error t ∨ ∃ v, u = .ok v ∧ k v = .error t := by
  cases u <;> simp [bind, Except.bind]

/-- A cut is made where no character is continued. -/
theorem boundary_eq_ok_iff {v : Unit} : boundary b = .ok v ↔ ¬ Continues b := by
  rw [boundary, Continues]
  split <;> simp_all

/-- A cut inside a character stops the reading. -/
theorem boundary_eq_error_iff : boundary b = .error .cutCharacter ↔ Continues b := by
  rw [boundary, Continues]
  split <;> simp_all

/-- Reading the two bytes of a pair cuts no character. -/
theorem pair_ne_cutCharacter (a b : UInt8) : Color.pair a b ≠ .error .cutCharacter := by
  rw [Color.pair]
  split <;> simp

/-- Six bytes, read two by two. -/
def ofSix (a b c d e f : UInt8) : Except HexFault Color := do
  boundary c
  let red ← Color.pair a b
  boundary e
  let green ← Color.pair c d
  let blue ← Color.pair e f
  pure ⟨red, green, blue⟩

section Six

variable {c d e f : UInt8} {color : Color} {cs : List Char}

/-- Six bytes are read if no pair ends inside a character and all three are read. -/
theorem ofSix_eq_ok_iff : ofSix a b c d e f = .ok color ↔ ¬ Continues c ∧ ¬ Continues e ∧
    Color.pair a b = .ok color.red ∧ Color.pair c d = .ok color.green ∧
      Color.pair e f = .ok color.blue := by
  simp only [ofSix, bind_eq_ok_iff, boundary_eq_ok_iff, exists_const]
  constructor
  · rintro ⟨hc, red, hred, he, green, hgreen, blue, hblue, hcolor⟩
    obtain rfl : ⟨red, green, blue⟩ = color := Except.ok.inj hcolor
    exact ⟨hc, he, hred, hgreen, hblue⟩
  · rintro ⟨hc, he, hred, hgreen, hblue⟩
    exact ⟨hc, _, hred, he, _, hgreen, _, hblue, rfl⟩

/-- They stop the reading if the first pair ends inside a character, or is read and the second
one does. -/
theorem ofSix_eq_cutCharacter_iff : ofSix a b c d e f = .error .cutCharacter ↔
    Continues c ∨ (∃ r, Color.pair a b = .ok r) ∧ Continues e := by
  have hread : ∀ color : Color, (pure color : Except HexFault Color) ≠ .error .cutCharacter :=
    fun _ h => by cases h
  simp only [ofSix, bind_eq_error_iff, boundary_eq_error_iff, boundary_eq_ok_iff, exists_const,
    pair_ne_cutCharacter, hread, false_or, or_false, and_false]
  by_cases hc : Continues c
  · simp [hc]
  · simp [hc]

/-- The characters of six bytes that are read. -/
theorem ofSix_eq_ok_iff_pairs (h : bytes cs = [a, b, c, d, e, f]) :
    ofSix a b c d e f = .ok color ↔ Pairs Reads cs color := by
  rw [ofSix_eq_ok_iff]
  constructor
  · rintro ⟨-, -, hred, hgreen, hblue⟩
    obtain ⟨r, r', ds, rfl, hds, hr⟩ := (pair_eq_ok_iff h).1 hred
    obtain ⟨g, g', es, rfl, hes, hg⟩ := (pair_eq_ok_iff hds).1 hgreen
    obtain ⟨l, l', fs, rfl, hfs, hl⟩ := (pair_eq_ok_iff hes).1 hblue
    obtain rfl := bytes_eq_nil_iff.1 hfs
    exact ⟨r, r', g, g', l, l', rfl, hr, hg, hl⟩
  · rintro ⟨r, r', g, g', l, l', rfl, hr, hg, hl⟩
    rw [hr.bytes, hg.bytes, hl.bytes, bytes_nil] at h
    simp only [List.cons.injEq, and_true] at h
    obtain ⟨rfl, rfl, rfl, rfl, rfl, rfl⟩ := h
    exact ⟨hg.not_continues, hl.not_continues, hr.pair, hg.pair, hl.pair⟩

/-- The characters of six bytes that stop the reading. -/
theorem ofSix_eq_cutCharacter_iff_ends (h : bytes cs = [a, b, c, d, e, f]) :
    ofSix a b c d e f = .error .cutCharacter ↔ ¬ EndsAt cs 2 ∨
      (∃ x y more r, cs = x :: y :: more ∧ Reads x y r) ∧ ¬ EndsAt cs 4 := by
  have hsecond : Continues c ↔ ¬ EndsAt cs 2 := continues_iff [a, b] h
  have hfourth : Continues e ↔ ¬ EndsAt cs 4 := continues_iff [a, b, c, d] h
  have hpair : (∃ r, Color.pair a b = .ok r) ↔
      ∃ x y more r, cs = x :: y :: more ∧ Reads x y r := by
    constructor
    · rintro ⟨r, hr⟩
      obtain ⟨x, y, ds, hcs, -, hreads⟩ := (pair_eq_ok_iff h).1 hr
      exact ⟨x, y, ds, r, hcs, hreads⟩
    · rintro ⟨x, y, ds, r, rfl, hreads⟩
      rw [hreads.bytes] at h
      have hds := congrArg (List.drop 2) h
      exact ⟨r, (pair_eq_ok_iff (hreads.bytes ds ▸ h)).2 ⟨x, y, ds, rfl, hds, hreads⟩⟩
  rw [ofSix_eq_cutCharacter_iff, hsecond, hfourth, hpair]

end Six

/-! ### Texts -/

variable {text : String} {color : Color}

/-- Behind the number signs, six bytes are read two by two. -/
theorem ofHex_eq_ofSix {c d e f : UInt8} (h : bytes (body text) = [a, b, c, d, e, f]) :
    ofHex text = ofSix a b c d e f := by
  rw [ofHex, toUTF8_ofList, ← body, h]
  rfl

/-- Six bytes have six names. -/
theorem exists_six {bs : List UInt8} (h : bs.length = 6) :
    ∃ a b c d e f, bs = [a, b, c, d, e, f] := by
  match bs, h with
  | [a, b, c, d, e, f], _ => exact ⟨a, b, c, d, e, f, rfl⟩

/-- Without six bytes a text is malformed. -/
theorem ofHex_of_length_ne (h : (bytes (body text)).length ≠ 6) :
    ofHex text = .error .malformed := by
  rw [ofHex, toUTF8_ofList, ← body]
  split
  · next heq => exact absurd (congrArg List.length heq) h
  · rfl

/-- What is written in pairs that do not begin with number signs is what stands behind these. -/
theorem written_iff {R : Char → Char → UInt8 → Prop} (clear : ∀ x y b, R x y b → x ≠ '#') :
    Written R text color ↔ Pairs R (body text) color := by
  constructor
  · rintro ⟨n, cs, htext, hpairs⟩
    have hsigns : ∀ c ∈ List.replicate n '#', (c == '#') = true := by simp
    have hbody : body text = cs := by
      obtain ⟨r, r', g, g', l, l', rfl, hr, -⟩ := hpairs
      rw [body, htext, List.dropWhile_append_of_pos hsigns,
        List.dropWhile_cons_of_neg (by simpa using clear r r' _ hr)]
    exact hbody ▸ hpairs
  · intro hpairs
    have hsigns : text.toList.takeWhile (· == '#') =
        List.replicate (text.toList.takeWhile (· == '#')).length '#' :=
      List.eq_replicate_of_mem fun c hc => by simpa using List.mem_takeWhile_imp hc
    refine ⟨(text.toList.takeWhile (· == '#')).length, body text, ?_, hpairs⟩
    rw [← hsigns, body, List.takeWhile_append_dropWhile]

/-- **The texts that are read**, and the color of each. -/
theorem ofHex_eq_ok_iff : ofHex text = .ok color ↔ Written Reads text color := by
  rw [written_iff fun _ _ _ h => h.ne_sign]
  by_cases hlen : (bytes (body text)).length = 6
  · obtain ⟨a, b, c, d, e, f, hsix⟩ := exists_six hlen
    rw [ofHex_eq_ofSix hsix, ofSix_eq_ok_iff_pairs hsix]
  · rw [ofHex_of_length_ne hlen]
    refine iff_of_false (fun h => by cases h) ?_
    rintro ⟨r, r', g, g', l, l', hbody, hr, hg, hl⟩
    rw [hbody, hr.bytes, hg.bytes, hl.bytes] at hlen
    exact hlen rfl

/-- **The texts that stop the reading.** -/
theorem ofHex_eq_cutCharacter_iff : ofHex text = .error .cutCharacter ↔ Torn text := by
  rw [Torn, ← length_bytes]
  by_cases hlen : (bytes (body text)).length = 6
  · obtain ⟨a, b, c, d, e, f, hsix⟩ := exists_six hlen
    rw [ofHex_eq_ofSix hsix, ofSix_eq_cutCharacter_iff_ends hsix, and_iff_right hlen]
  · rw [ofHex_of_length_ne hlen]
    exact iff_of_false (fun h => by cases h) fun h => hlen h.1

/-- Where no pair begins with a plus sign, what is read is written in digits. -/
theorem written_reads_iff_spells (unsigned : ∀ i ∈ [0, 2, 4], (body text)[i]? ≠ some '+') :
    Written Reads text color ↔ Written Spells text color := by
  have hspells : ∀ x y b, x ≠ '+' → (Reads x y b ↔ Spells x y b) := fun x y b hx =>
    ⟨fun h => h.resolve_right fun hsigned => hx hsigned.1, .inl⟩
  rw [written_iff fun _ _ _ h => h.ne_sign, written_iff fun _ _ _ h => Reads.ne_sign (.inl h)]
  refine exists_congr fun r => exists_congr fun r' => exists_congr fun g => exists_congr fun g' =>
    exists_congr fun l => exists_congr fun l' => and_congr_right fun hbody => ?_
  have hplace : ∀ i ∈ [0, 2, 4], [r, r', g, g', l, l'][i]? ≠ some '+' := hbody ▸ unsigned
  simp only [List.forall_mem_cons] at hplace
  obtain ⟨hr, hg, hl, -⟩ := hplace
  rw [hspells r r' _ (ne_of_apply_ne some hr), hspells g g' _ (ne_of_apply_ne some hg),
    hspells l l' _ (ne_of_apply_ne some hl)]

/-- All other texts are malformed. -/
theorem ofHex_eq_malformed_iff :
    ofHex text = .error .malformed ↔ ¬ Torn text ∧ ∀ color, ¬ Written Reads text color := by
  simp only [← ofHex_eq_cutCharacter_iff, ← ofHex_eq_ok_iff]
  rcases ofHex text with (_ | _) | color <;> simp

/-- **What is read.** A text is read as a color exactly if it is any number of number signs and
three pairs that spell the channels, a pair being two hexadecimal digits of either case or a plus
sign and one. It stops the reading exactly if it is torn, and is malformed otherwise. So wherever
no pair begins with a plus sign and none ends inside a character, exactly the colors written in
digits are read, and all other texts are malformed. -/
theorem ofHex_reads (text : String) :
    (∀ color, ofHex text = .ok color ↔ Written Reads text color) ∧
    (ofHex text = .error .cutCharacter ↔ Torn text) ∧
    (ofHex text = .error .malformed ↔ ¬ Torn text ∧ ∀ color, ¬ Written Reads text color) ∧
    (¬ Torn text → (∀ i ∈ [0, 2, 4], (body text)[i]? ≠ some '+') →
      (∀ color, ofHex text = .ok color ↔ Written Spells text color) ∧
      ((∀ color, ¬ Written Spells text color) → ofHex text = .error .malformed)) := by
  refine ⟨fun _ => ofHex_eq_ok_iff, ofHex_eq_cutCharacter_iff, ofHex_eq_malformed_iff,
    fun whole unsigned => ?_⟩
  have hspells : ∀ color, Written Reads text color ↔ Written Spells text color := fun _ =>
    written_reads_iff_spells unsigned
  refine ⟨fun color => ofHex_eq_ok_iff.trans (hspells color), fun unwritten => ?_⟩
  exact ofHex_eq_malformed_iff.2 ⟨whole, fun color h => unwritten color ((hspells color).1 h)⟩

/-- Digits of either case behind two number signs are read, and five characters of six bytes are
refused where the pairs end between them. -/
theorem either_case_read :
    ofHex "##fF8800" = .ok ⟨255, 136, 0⟩ ∧ ofHex "é00ff" = .error .malformed := by
  have whole : ∀ text, EndsAt (body text) 2 → EndsAt (body text) 4 → ¬ Torn text := by
    rintro text two four ⟨-, h | ⟨-, h⟩⟩
    · exact h two
    · exact h four
  constructor
  · obtain ⟨hread, -⟩ := (ofHex_reads "##fF8800").2.2.2 (whole _ ⟨2, rfl⟩ ⟨4, rfl⟩) (by decide)
    refine (hread _).2 ⟨2, _, rfl, 'f', 'F', '8', '8', '0', '0', rfl, ?_, ?_, ?_⟩
    · exact ⟨15, 15, by decide, by decide, rfl⟩
    · exact ⟨8, 8, by decide, by decide, rfl⟩
    · exact ⟨0, 0, by decide, by decide, rfl⟩
  · obtain ⟨-, hrefused⟩ := (ofHex_reads "é00ff").2.2.2 (whole _ ⟨1, rfl⟩ ⟨3, rfl⟩) (by decide)
    refine hrefused fun color hwritten => ?_
    rw [written_iff fun _ _ _ h => Reads.ne_sign (.inl h)] at hwritten
    obtain ⟨r, r', g, g', l, l', hbody, -⟩ := hwritten
    have hlength : 5 = 6 := congrArg List.length hbody
    cases hlength

/-- A sign stands for a digit, and a pair ends inside a character: the first text is no color and
is read as one, the other one is not refused. -/
theorem signs_and_cuts :
    (ofHex "+f0000" = .ok ⟨15, 0, 0⟩ ∧ ∀ color, ¬ Written Spells "+f0000" color) ∧
      ofHex "0é000" = .error .cutCharacter := by
  refine ⟨⟨by decide +kernel, fun color hwritten => ?_⟩, by decide +kernel⟩
  rw [written_iff fun _ _ _ h => Reads.ne_sign (.inl h)] at hwritten
  obtain ⟨r, r', g, g', l, l', hbody, ⟨high, low, hr, -⟩, -⟩ := hwritten
  obtain rfl : '+' = r := (List.cons.inj hbody).1
  exact not_isDigit rfl hr

end Marquee.Color
