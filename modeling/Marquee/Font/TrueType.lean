import Marquee.Font.Outline

/-!
# TrueType Fonts

A font file is a directory of tables, each found by a tag of four letters. Seven of them
say what a character measures:

* `head` — the units to the em, and how `loca` is written;
* `hhea` — for how many glyphs `hmtx` has an advance;
* `hmtx` — the advances; glyphs beyond the last have the last one;
* `cmap` — which glyph a character has, in one of several formats;
* `loca` and `glyf` — the ink box of a glyph, if it has ink.

Numbers are written with their highest byte first. The glyph of number zero stands for
every character without one. Nothing is read outside the file: a place that is not in it
makes the answer nothing.
-/

namespace Marquee.Font.TrueType

/-! ### Numbers -/

/-- The byte at a place. -/
def byte? (b : ByteArray) (i : Nat) : Option Nat :=
  if h : i < b.size then some b[i].toNat else none

/-- The 16-bit number at a place. -/
def word? (b : ByteArray) (i : Nat) : Option Nat := do
  return (← byte? b i) * 256 + (← byte? b (i + 1))

/-- The 16-bit number at a place, the upper half of the range standing for negatives. -/
def signed? (b : ByteArray) (i : Nat) : Option Int := do
  let n ← word? b i
  return if n < 32768 then n else (n : Int) - 65536

/-- The 32-bit number at a place. -/
def long? (b : ByteArray) (i : Nat) : Option Nat := do
  return (← word? b i) * 65536 + (← word? b (i + 2))

/-! ### Tables -/

/-- The number that the letters of a tag make up. -/
def tagNumber (tag : String) : Nat := tag.toList.foldl (fun n c => n * 256 + c.toNat) 0

/-- The place where a table begins. -/
def table? (b : ByteArray) (tag : String) : Option Nat := do
  let entries := (List.range (← word? b 4)).map (12 + 16 * ·)
  let entry ← entries.find? fun i => long? b i == some (tagNumber tag)
  long? b (entry + 8)

/-! ### Characters -/

/-- The glyph of a character in a list of segments. A segment shifts its characters by an
amount or leads to a list of glyphs. -/
def inSegments? (b : ByteArray) (start c : Nat) : Option Nat := do
  let size ← word? b (start + 6)
  let lasts := start + 14
  let i ← ((List.range (size / 2)).map (2 * ·)).find? fun i =>
    (word? b (lasts + i)).any (c ≤ ·)
  let first ← word? b (lasts + size + 2 + i)
  if c < first then none
  let shift ← word? b (lasts + 2 * size + 2 + i)
  let place := lasts + 3 * size + 2 + i
  match ← word? b place with
  | 0 => return (c + shift) % 65536
  | offset => do
    let glyph ← word? b (place + offset + 2 * (c - first))
    return if glyph = 0 then 0 else (glyph + shift) % 65536

/-- The glyph of a character in a list of groups of neighbors. -/
def inGroups? (b : ByteArray) (start c : Nat) : Option Nat := do
  let count := min (← long? b (start + 12)) b.size
  let groups := (List.range count).map (start + 16 + 12 * ·)
  groups.findSome? fun i => do
    let first ← long? b i
    let last ← long? b (i + 4)
    if first ≤ c ∧ c ≤ last then return (← long? b (i + 8)) + (c - first) else none

/-- The glyph of a character in one map. -/
def inMap? (b : ByteArray) (start c : Nat) : Option Nat := do
  match ← word? b start with
  | 0 => if c < 256 then byte? b (start + 6 + c) else none
  | 4 => inSegments? b start c
  | 6 => do
    let first ← word? b (start + 6)
    let count ← word? b (start + 8)
    if first ≤ c ∧ c < first + count then word? b (start + 10 + 2 * (c - first)) else none
  | 12 => inGroups? b start c
  | _ => none

/-- Whether a map of some platform and encoding is one of Unicode. -/
def isUnicode (platform encoding : Nat) : Bool :=
  platform == 0 || (platform == 3 && (encoding == 1 || encoding == 10))

/-- The places where the maps of Unicode begin. -/
def maps (b : ByteArray) (start : Nat) : List Nat :=
  (List.range ((word? b (start + 2)).getD 0)).filterMap fun i => do
    let entry := start + 4 + 8 * i
    if isUnicode (← word? b entry) (← word? b (entry + 2)) then
      return start + (← long? b (entry + 4))
    else none

/-! ### Glyphs -/

/-- Where things are in a font file. -/
structure Layout where
  bytes : ByteArray
  /-- How many glyphs have an advance of their own. -/
  advances : Nat
  metrics : Nat
  /-- Whether places of glyphs have 32 bits and not half of 16. -/
  long : Bool
  places : Nat
  glyphs : Nat
  maps : List Nat

namespace Layout

/-- The place of a glyph behind the start of all glyphs. -/
def place? (l : Layout) (glyph : Nat) : Option Nat :=
  if l.long then long? l.bytes (l.places + 4 * glyph)
  else (word? l.bytes (l.places + 2 * glyph)).map (2 * ·)

/-- A glyph as an outline. One that takes no place has no ink. -/
def outline? (l : Layout) (glyph : Nat) : Option Outline := do
  let advance ← word? l.bytes (l.metrics + 4 * min glyph (l.advances - 1))
  let start ← l.place? glyph
  let stop ← l.place? (glyph + 1)
  let inkless : Outline := ⟨.ofNat advance, 0, 0, 0, 0⟩
  if start = stop then return inkless
  let edge (i : Nat) : Option Float32 := (signed? l.bytes (l.glyphs + start + i)).map .ofInt
  return { inkless with
    xmin := ← edge 2, ymin := ← edge 4, xmax := ← edge 6, ymax := ← edge 8 }

/-- The glyph of a character. -/
def glyph (l : Layout) (c : Char) : Nat :=
  (l.maps.findSome? (inMap? l.bytes · c.toNat)).getD 0

/-- The outline of a character. -/
def outline (l : Layout) (c : Char) : Outline :=
  (l.outline? (l.glyph c) <|> l.outline? 0).getD ⟨0, 0, 0, 0, 0⟩

end Layout

/-! ### Files -/

/-- The first number of a font file, in either of its two forms. -/
def isMagic (n : Nat) : Bool := n == 0x00010000 || n == tagNumber "true"

/-- The face in a font file. -/
def face? (b : ByteArray) : Option OutlineFace := do
  if !isMagic (← long? b 0) then none
  let head ← table? b "head"
  let unitsPerEm ← word? b (head + 18)
  let layout : Layout :=
    { bytes := b
      advances := ← word? b ((← table? b "hhea") + 34)
      metrics := ← table? b "hmtx"
      long := (← word? b (head + 50)) != 0
      places := ← table? b "loca"
      glyphs := ← table? b "glyf"
      maps := maps b (← table? b "cmap") }
  if unitsPerEm = 0 ∨ layout.advances = 0 then none
  return ⟨.ofNat unitsPerEm, layout.outline⟩

end Marquee.Font.TrueType
