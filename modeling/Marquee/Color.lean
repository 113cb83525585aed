/-!
# Colors

Opaque colors of three bytes, the seven named ones of the palette, their written form,
and the shade that the sides of extruded text take.

## Reading hexadecimal

`Color.ofHex` drops leading number signs, asks for six bytes of UTF-8, and reads them
two by two. A pair may be a plus sign and a single digit. The cuts between the pairs
are made at fixed byte offsets, one after the other, so a cut may fall inside a
character; that is an outcome of its own (`HexFault.cutCharacter`), and it does not
arise where an earlier pair already holds a bad digit.
-/

namespace Marquee

/-- An opaque color. -/
structure Color where
  red : UInt8
  green : UInt8
  blue : UInt8
deriving DecidableEq

/-- Why a text is not read as a color. -/
inductive HexFault where
  /-- It is not six hexadecimal digits. -/
  | malformed
  /-- A pair of bytes ends inside a character. -/
  | cutCharacter
deriving DecidableEq

namespace HexFault

/-- The wording of a fault. -/
def message : HexFault → String
  | malformed => "invalid hex color string"
  | cutCharacter => "byte index is not a character boundary"

end HexFault

namespace Color

/-! ### The palette -/

def white : Color := ⟨255, 255, 255⟩
def pureRed : Color := ⟨255, 0, 0⟩
def pureGreen : Color := ⟨0, 255, 0⟩
def pureBlue : Color := ⟨0, 0, 255⟩
def yellow : Color := ⟨255, 255, 0⟩
def magenta : Color := ⟨255, 0, 255⟩
def cyan : Color := ⟨0, 255, 255⟩

/-- The named colors. -/
def palette : List (String × Color) :=
  [("WHITE", white), ("RED", pureRed), ("GREEN", pureGreen), ("BLUE", pureBlue), ("YELLOW", yellow),
   ("MAGENTA", magenta), ("CYAN", cyan)]

/-- The color a palette name stands for. -/
def ofName? (name : String) : Option Color :=
  palette.lookup name

instance : Inhabited Color := ⟨white⟩

/-! ### Packed form -/

/-- The color packed into the low three bytes of a number, red highest. -/
def ofPacked (n : Nat) : Color :=
  ⟨.ofNat (n / 65536), .ofNat (n / 256), .ofNat n⟩

/-- The color as one number below `2 ^ 24`. -/
def packed (c : Color) : Nat :=
  c.red.toNat * 65536 + c.green.toNat * 256 + c.blue.toNat

/-- Unpacking a packed color gives it back. -/
theorem ofPacked_packed (c : Color) : ofPacked c.packed = c := by
  obtain ⟨r, g, b⟩ := c
  have hr := r.toNat_lt
  have hg := g.toNat_lt
  have hb := b.toNat_lt
  simp only [ofPacked, packed, Color.mk.injEq]
  refine ⟨?_, ?_, ?_⟩ <;> apply UInt8.toNat_inj.1 <;>
    simp only [UInt8.toNat_ofNat'] <;> omega

/-! ### Written form -/

/-- A byte as two digits, capitals for letters. -/
def byteText (b : UInt8) : String :=
  let digits := (Nat.toDigits 16 b.toNat).map Char.toUpper
  String.ofList (List.replicate (2 - digits.length) '0' ++ digits)

/-- A number sign and six digits. -/
def describe (c : Color) : String :=
  "#" ++ byteText c.red ++ byteText c.green ++ byteText c.blue

/-- The value of a hexadecimal digit of either case. -/
def digit? (b : UInt8) : Option UInt8 :=
  if 48 ≤ b ∧ b ≤ 57 then some (b - 48)
  else if 65 ≤ b ∧ b ≤ 70 then some (b - 55)
  else if 97 ≤ b ∧ b ≤ 102 then some (b - 87)
  else none

/-- The byte that a pair spells: two digits, or a plus sign and one. -/
def pair (a b : UInt8) : Except HexFault UInt8 :=
  match if a = 43 then some 0 else digit? a, digit? b with
  | some high, some low => .ok (high * 16 + low)
  | _, _ => .error .malformed

/-- Refuses a cut in front of a byte that continues a character. -/
def boundary (next : UInt8) : Except HexFault Unit :=
  if next &&& 0xC0 = 0x80 then .error .cutCharacter else .ok ()

/-- Reads six hexadecimal digits behind any number of number signs. -/
def ofHex (text : String) : Except HexFault Color :=
  match (String.ofList (text.toList.dropWhile (· == '#'))).toUTF8.data.toList with
  | [a, b, c, d, e, f] => do
    boundary c
    let red ← pair a b
    boundary e
    let green ← pair c d
    let blue ← pair e f
    pure ⟨red, green, blue⟩
  | _ => .error .malformed

/-! ### Shading -/

/-- The average channel from which on a color counts as light. -/
def lightFrom : Nat := 0x55

/-- The mean of the channels, rounded up. -/
def average (c : Color) : Nat :=
  (c.red.toNat + c.green.toNat + c.blue.toNat + 2) / 3

/-- The color of the sides of text with this front: darker for a light color, brighter
for a dark one, so that depth shows against either. Channels are rounded down and stop
at their maximum. -/
def sideShade (c : Color) : Color :=
  let factor : Float := if lightFrom ≤ c.average then 0.7 else 3.0
  let shade (b : UInt8) : UInt8 := (b.toFloat * factor).toUInt8
  ⟨shade c.red, shade c.green, shade c.blue⟩

end Color

end Marquee
