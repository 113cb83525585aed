import Mathlib.Algebra.GroupWithZero.Nat
import Mathlib.Data.List.Basic
import Mathlib.Tactic.Common

/-!
# Characters and Their Bytes

In UTF-8 a character takes one byte to four. The first of them begins no other way than a first
byte does, and the others continue it: so wherever some bytes are cut in two, the byte behind the
cut tells whether the cut falls between characters.

## Main statements

* `encode_cases` — the bytes of one character;
* `exists_split` — a cut in front of a byte that continues nothing falls between characters;
* `continues_iff` — **a byte continues a character** exactly if no characters end before it.
-/

namespace Marquee.Text

/-- The bytes of some characters. -/
def bytes (cs : List Char) : List UInt8 := cs.flatMap String.utf8EncodeChar

/-- A byte that is not the first of its character. -/
def Continues (b : UInt8) : Prop := b &&& 0xC0 = 0x80

instance : DecidablePred Continues := fun b => inferInstanceAs (Decidable (b &&& 0xC0 = 0x80))

/-- Some first characters have as many bytes. -/
def EndsAt (cs : List Char) (n : Nat) : Prop := ∃ m, ((cs.take m).map Char.utf8Size).sum = n

/-- No characters have no bytes. -/
@[simp]
theorem bytes_nil : bytes [] = [] := rfl

/-- The bytes of the first character come first. -/
@[simp]
theorem bytes_cons (c : Char) (cs : List Char) :
    bytes (c :: cs) = String.utf8EncodeChar c ++ bytes cs := rfl

/-- Texts in a row have their bytes in a row. -/
theorem bytes_append (cs ds : List Char) : bytes (cs ++ ds) = bytes cs ++ bytes ds :=
  List.flatMap_append

/-- There are as many bytes as the characters take up. -/
theorem length_bytes (cs : List Char) : (bytes cs).length = (cs.map Char.utf8Size).sum := by
  simp [bytes, List.length_flatMap]

/-- The bytes of a text are those of its characters. -/
theorem toUTF8_ofList (cs : List Char) : (String.ofList cs).toUTF8.data.toList = bytes cs := by
  rw [String.toUTF8_eq_toByteArray, String.toByteArray_ofList, List.utf8Encode,
    List.data_toByteArray]
  rfl

/-! ### One character -/

/-- The bytes that continue characters are those of one range. -/
theorem continues_iff_range (b : UInt8) : Continues b ↔ 128 ≤ b.toNat ∧ b.toNat < 192 := by
  have hall : ∀ n < 256, Continues (.ofNat n) ↔ 128 ≤ n ∧ n < 192 := by decide +kernel
  have hb := hall b.toNat b.toNat_lt
  rwa [UInt8.ofNat_toNat] at hb

/-- **The bytes of a character**: one of the lower half of all bytes, which is the character
itself, or a first one of the highest quarter and others that continue it. -/
theorem encode_cases (c : Char) :
    (c.toNat < 128 ∧ String.utf8EncodeChar c = [.ofNat c.toNat]) ∨
      128 ≤ c.toNat ∧ ∃ b more, String.utf8EncodeChar c = b :: more ∧ 192 ≤ b.toNat ∧
        ∀ x ∈ more, Continues x := by
  have hmore : ∀ n : Nat, Continues (.ofNat (n % 64 + 128)) := fun n => by
    rw [continues_iff_range, UInt8.toNat_ofNat']
    omega
  fun_cases String.utf8EncodeChar c with
  | case1 v h => exact .inl ⟨Nat.lt_succ_of_le h, rfl⟩
  | case2 v =>
    refine .inr ⟨Nat.lt_of_not_le ‹_›, _, _, rfl, ?_, ?_⟩
    · rw [UInt8.toNat_ofNat']
      omega
    · exact List.forall_mem_singleton.2 (hmore _)
  | case3 v =>
    refine .inr ⟨Nat.lt_of_not_le ‹_›, _, _, rfl, ?_, ?_⟩
    · rw [UInt8.toNat_ofNat']
      omega
    · exact List.forall_mem_cons.2 ⟨hmore _, List.forall_mem_singleton.2 (hmore _)⟩
  | case4 v =>
    refine .inr ⟨Nat.lt_of_not_le ‹_›, _, _, rfl, ?_, ?_⟩
    · rw [UInt8.toNat_ofNat']
      omega
    · exact List.forall_mem_cons.2 ⟨hmore _, List.forall_mem_cons.2
        ⟨hmore _, List.forall_mem_singleton.2 (hmore _)⟩⟩

/-- A character has a first byte, which continues nothing, and bytes that continue it. -/
theorem exists_encode (c : Char) : ∃ b more, String.utf8EncodeChar c = b :: more ∧
    ¬ Continues b ∧ ∀ x ∈ more, Continues x := by
  rcases encode_cases c with ⟨hlt, henc⟩ | ⟨-, b, more, henc, hfirst, hmore⟩
  · refine ⟨_, _, henc, ?_, List.forall_mem_nil _⟩
    rw [continues_iff_range, UInt8.toNat_ofNat']
    omega
  · refine ⟨b, more, henc, ?_, hmore⟩
    rw [continues_iff_range]
    omega

/-- A first byte of the lower half is all there is of its character. -/
theorem eq_of_encode {c : Char} {b : UInt8} {more : List UInt8}
    (h : String.utf8EncodeChar c = b :: more) (low : b.toNat < 128) :
    more = [] ∧ c.toNat = b.toNat := by
  rcases encode_cases c with ⟨hlt, henc⟩ | ⟨-, b', more', henc, hfirst, -⟩
  · rw [henc] at h
    obtain ⟨rfl, rfl⟩ := List.cons.inj h
    refine ⟨rfl, ?_⟩
    rw [UInt8.toNat_ofNat']
    omega
  · rw [henc] at h
    obtain ⟨rfl, -⟩ := List.cons.inj h
    omega

/-- Only the empty text has no bytes. -/
theorem bytes_eq_nil_iff {cs : List Char} : bytes cs = [] ↔ cs = [] := by
  rw [bytes, List.flatMap_eq_nil_iff]
  refine ⟨fun h => List.eq_nil_iff_forall_not_mem.2 fun c hc => ?_, fun h => h ▸ ?_⟩
  · exact String.utf8EncodeChar_ne_nil (h c hc)
  · exact List.forall_mem_nil _

/-! ### Where characters end -/

variable {cs : List Char} {before after : List UInt8} {b : UInt8}

/-- **A cut between characters.** If no byte behind it continues a character, some first
characters have the bytes in front of it, and the others those behind. -/
theorem exists_split (h : bytes cs = before ++ after) (clean : ∀ b ∈ after.head?, ¬ Continues b) :
    ∃ us vs, cs = us ++ vs ∧ bytes us = before ∧ bytes vs = after := by
  induction cs generalizing before with
  | nil =>
    obtain ⟨rfl, rfl⟩ := List.append_eq_nil_iff.1 h.symm
    exact ⟨[], [], rfl, rfl, rfl⟩
  | cons c cs ih =>
    rcases before with _ | ⟨x, before⟩
    · exact ⟨[], c :: cs, rfl, rfl, h⟩
    obtain ⟨b, more, henc, -, hmore⟩ := exists_encode c
    rw [bytes_cons, henc, List.cons_append, List.cons_append] at h
    obtain ⟨rfl, htail⟩ := List.cons.inj h
    rcases List.append_eq_append_iff.1 htail with ⟨rest, rfl, hrest⟩ | ⟨rest, rfl, rfl⟩
    · obtain ⟨us, vs, rfl, hus, hvs⟩ := ih hrest
      exact ⟨c :: us, vs, rfl, by rw [bytes_cons, henc, hus, List.cons_append], hvs⟩
    · rcases rest with _ | ⟨y, rest⟩
      · exact ⟨[c], cs, rfl, by rw [bytes_cons, henc, bytes_nil, List.append_nil,
          List.append_nil], rfl⟩
      · exact absurd (hmore y (List.mem_append_right _ List.mem_cons_self)) (clean y rfl)

/-- A text ends between its characters wherever a first part of it ends. -/
theorem endsAt_append (us vs : List Char) : EndsAt (us ++ vs) (bytes us).length :=
  ⟨us.length, by rw [List.take_left, length_bytes]⟩

/-- **A byte continues a character** exactly if no characters end before it. -/
theorem continues_iff (before : List UInt8) (h : bytes cs = before ++ b :: after) :
    Continues b ↔ ¬ EndsAt cs before.length := by
  constructor
  · rintro hb ⟨m, hm⟩
    rw [← length_bytes] at hm
    rw [← List.take_append_drop m cs, bytes_append] at h
    obtain ⟨-, hdrop⟩ := List.append_inj h hm
    rcases hcs : cs.drop m with _ | ⟨c, vs⟩
    · rw [hcs] at hdrop
      cases hdrop
    · obtain ⟨b', more, henc, hfirst, -⟩ := exists_encode c
      rw [hcs, bytes_cons, henc] at hdrop
      obtain ⟨rfl, -⟩ := List.cons.inj hdrop
      exact hfirst hb
  · intro hends
    by_contra hb
    obtain ⟨us, vs, rfl, rfl, -⟩ := exists_split h fun x hx => by
      obtain rfl : b = x := Option.some.inj hx
      exact hb
    exact hends (endsAt_append us vs)

end Marquee.Text
