/-!
# Blank Characters

The characters with the Unicode property White_Space, and the blank margins of a text.

## Main statements

* `leading_append_core_append_trailing` — a text is its two margins around its core;
* `core_eq_nil_iff` — the core is empty exactly when the text is blank throughout.
-/

namespace Marquee.Text

/-- The ranges of White_Space. -/
def blankRanges : List (Nat × Nat) :=
  [(0x9, 0xd), (0x20, 0x20), (0x85, 0x85), (0xa0, 0xa0), (0x1680, 0x1680), (0x2000, 0x200a),
   (0x2028, 0x2029), (0x202f, 0x202f), (0x205f, 0x205f), (0x3000, 0x3000)]

/-- Whether a character is blank. -/
def isBlank (c : Char) : Bool :=
  blankRanges.any fun (first, last) => first ≤ c.toNat && c.toNat ≤ last

/-- The blank characters at the start. -/
def leading (s : List Char) : List Char :=
  s.takeWhile isBlank

/-- The blank characters at the end. -/
def trailing (s : List Char) : List Char :=
  (s.reverse.takeWhile isBlank).reverse

/-- What is left without blank characters at either end. -/
def core (s : List Char) : List Char :=
  ((s.dropWhile isBlank).reverse.dropWhile isBlank).reverse

/-- Nothing is left behind the leading blanks exactly if there is nothing else. -/
theorem dropWhile_isBlank_eq_nil_iff {s : List Char} :
    s.dropWhile isBlank = [] ↔ ∀ c ∈ s, isBlank c := by
  induction s with
  | nil => simp
  | cons c r ih => by_cases h : isBlank c <;> simp [h, ih]

/-- A run that ends inside the first of two lists ignores the second. -/
theorem takeWhile_isBlank_append {s t : List Char} (h : s.dropWhile isBlank ≠ []) :
    (s ++ t).takeWhile isBlank = s.takeWhile isBlank := by
  induction s with
  | nil => exact absurd rfl h
  | cons c r ih =>
    by_cases hc : isBlank c
    · rw [List.dropWhile_cons_of_pos hc] at h
      rw [List.cons_append, List.takeWhile_cons_of_pos hc, List.takeWhile_cons_of_pos hc, ih h]
    · rw [List.cons_append, List.takeWhile_cons_of_neg hc, List.takeWhile_cons_of_neg hc]

/-- **The core is empty** exactly if the text is blank throughout. -/
theorem core_eq_nil_iff {s : List Char} : core s = [] ↔ ∀ c ∈ s, isBlank c := by
  rw [core, List.reverse_eq_nil_iff, dropWhile_isBlank_eq_nil_iff,
    ← dropWhile_isBlank_eq_nil_iff (s := s)]
  constructor
  · intro h
    cases hd : s.dropWhile isBlank with
    | nil => rfl
    | cons c r =>
      have hc : isBlank c = true := h c (by simp [hd])
      have hn := List.head?_dropWhile_not isBlank s
      simp [hd, hc] at hn
  · intro h
    simp [h]

/-- **A text is its two margins around its core**, none of it lost or counted twice. -/
theorem leading_append_core_append_trailing {s : List Char} (h : core s ≠ []) :
    leading s ++ core s ++ trailing s = s := by
  have hs : leading s ++ s.dropWhile isBlank = s := List.takeWhile_append_dropWhile
  have hd : (s.dropWhile isBlank).reverse.dropWhile isBlank ≠ [] := by
    simpa [core] using h
  have ht : trailing s = ((s.dropWhile isBlank).reverse.takeWhile isBlank).reverse := by
    rw [← takeWhile_isBlank_append hd, ← List.reverse_append, hs, trailing]
  rw [ht, core, List.append_assoc, ← List.reverse_append, List.takeWhile_append_dropWhile,
    List.reverse_reverse, hs]

end Marquee.Text
