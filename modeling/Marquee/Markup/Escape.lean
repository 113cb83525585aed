/-!
# Color Escapes

The terminal escapes that select a color inside markup. An escape is introduced by
ESC and an opening bracket and closed by the letter `m`; only the seven in
`Escape.table` have a meaning, and each names a color of the palette.

## Main statements

* `Escape.color?_eq_some_iff`, `Escape.sequence?_eq_some_iff` — the two look-ups are
  membership in the table, read in the two directions.
-/

namespace Marquee.Markup

/-- A known escape: the characters written, and the color name they select. -/
structure Escape where
  sequence : String
  color : String
deriving DecidableEq

namespace Escape

/-- The characters that introduce every escape. -/
def intro : List Char := ['\x1b', '[']

/-- The character that closes an escape. -/
def terminator : Char := 'm'

/-- The known escapes. The first resets the color. -/
def table : List Escape :=
  [⟨"\x1b[0m", "WHITE"⟩, ⟨"\x1b[31m", "RED"⟩, ⟨"\x1b[32m", "GREEN"⟩, ⟨"\x1b[33m", "YELLOW"⟩,
   ⟨"\x1b[34m", "BLUE"⟩, ⟨"\x1b[35m", "MAGENTA"⟩, ⟨"\x1b[36m", "CYAN"⟩]

/-- The color in force before any escape is read. -/
def baseColor : String := "WHITE"

/-- The color name that a complete escape selects. -/
def color? (sequence : String) : Option String :=
  (table.find? (·.sequence == sequence)).map (·.color)

/-- The escape that selects a color name. -/
def sequence? (color : String) : Option String :=
  (table.find? (·.color == color)).map (·.sequence)

/-- A sequence selects the color that the table has beside it, and no other. -/
theorem color?_eq_some_iff {s c : String} : color? s = some c ↔ ⟨s, c⟩ ∈ table := by
  constructor
  · intro h
    obtain ⟨e, he, rfl⟩ := Option.map_eq_some_iff.1 h
    have hs : e.sequence = s := by simpa using List.find?_some he
    exact hs ▸ List.mem_of_find?_eq_some he
  · intro h
    simp only [table, List.mem_cons, List.not_mem_nil, or_false, Escape.mk.injEq] at h
    rcases h with ⟨rfl, rfl⟩ | ⟨rfl, rfl⟩ | ⟨rfl, rfl⟩ | ⟨rfl, rfl⟩ | ⟨rfl, rfl⟩ | ⟨rfl, rfl⟩ |
      ⟨rfl, rfl⟩ <;> rfl

/-- A color is selected by the sequence that the table has beside it, and by no other. -/
theorem sequence?_eq_some_iff {s c : String} : sequence? c = some s ↔ ⟨s, c⟩ ∈ table := by
  constructor
  · intro h
    obtain ⟨e, he, rfl⟩ := Option.map_eq_some_iff.1 h
    have hc : e.color = c := by simpa using List.find?_some he
    exact hc ▸ List.mem_of_find?_eq_some he
  · intro h
    simp only [table, List.mem_cons, List.not_mem_nil, or_false, Escape.mk.injEq] at h
    rcases h with ⟨rfl, rfl⟩ | ⟨rfl, rfl⟩ | ⟨rfl, rfl⟩ | ⟨rfl, rfl⟩ | ⟨rfl, rfl⟩ | ⟨rfl, rfl⟩ |
      ⟨rfl, rfl⟩ <;> rfl

end Escape

end Marquee.Markup
