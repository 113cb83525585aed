/-!
# Shelves

A shelf holds values by key and counts how it is used: look-ups that found something,
look-ups that did not, and values put in.

## Main statements

* `get?_put` — a put changes what is under its key and nothing else;
* `look_fst` — a look-up answers what is there;
* `get?_take` — taking a value leaves it on the shelf for the next time.
-/

namespace Marquee.Store

/-- How often a shelf was used. -/
structure Usage where
  hits : Nat := 0
  misses : Nat := 0
  inserts : Nat := 0
deriving DecidableEq

namespace Usage

/-- The part of all look-ups that found something; zero before the first. -/
def hitRate (u : Usage) : Float :=
  if u.hits + u.misses = 0 then 0 else u.hits.toFloat / (u.hits + u.misses).toFloat

end Usage

/-- Values by key. -/
structure Shelf (κ α : Type) where
  entries : List (κ × α) := []
  usage : Usage := {}

namespace Shelf

variable {κ α : Type} [DecidableEq κ]

/-- What stands under a key. -/
def get? (s : Shelf κ α) (k : κ) : Option α := s.entries.lookup k

/-- The number of values. -/
def size (s : Shelf κ α) : Nat := s.entries.length

/-- What stands under a key, counted as a look-up. -/
def look (s : Shelf κ α) (k : κ) : Option α × Shelf κ α :=
  match s.get? k with
  | some a => (some a, { s with usage := { s.usage with hits := s.usage.hits + 1 } })
  | none => (none, { s with usage := { s.usage with misses := s.usage.misses + 1 } })

/-- The shelf with a value under a key, in place of any other there. -/
def put (s : Shelf κ α) (k : κ) (a : α) : Shelf κ α :=
  { entries := (k, a) :: s.entries.filter (·.1 != k)
    usage := { s.usage with inserts := s.usage.inserts + 1 } }

/-- What stands under a key; what was missing is made and put there. -/
def take (s : Shelf κ α) (k : κ) (make : Unit → α) : α × Shelf κ α :=
  match s.look k with
  | (some a, s) => (a, s)
  | (none, s) =>
    let a := make ()
    (a, s.put k a)

/-- The shelf without its values. Its use is not forgotten. -/
def clear (s : Shelf κ α) : Shelf κ α := { s with entries := [] }

/-! ### What is under a key afterwards -/

/-- Looking for a key finds what is stored under it. -/
@[simp]
theorem look_fst (s : Shelf κ α) (k : κ) : (s.look k).1 = s.get? k := by
  unfold look
  split <;> simp_all

/-- Looking changes no entry; it is only counted. -/
@[simp]
theorem get?_look (s : Shelf κ α) (k l : κ) : (s.look k).2.get? l = s.get? l := by
  unfold look
  split <;> rfl

/-- Dropping one key leaves what is stored under the others. -/
theorem lookup_filter_ne (l : List (κ × α)) {k m : κ} (h : m ≠ k) :
    (l.filter (·.1 != k)).lookup m = l.lookup m := by
  induction l with
  | nil => rfl
  | cons e l ih =>
    obtain ⟨x, a⟩ := e
    by_cases hx : x = k
    · subst hx
      have hm : (m == x) = false := by simpa using h
      simp [List.lookup_cons, hm, ih]
    · simp [hx, List.lookup_cons, ih]

/-- After storing, the key has the new thing, and every other key what it had. -/
theorem get?_put (s : Shelf κ α) (k l : κ) (a : α) :
    (s.put k a).get? l = if l = k then some a else s.get? l := by
  by_cases h : l = k
  · subst h
    simp [get?, put]
  · have hb : (l == k) = false := by simpa using h
    simp [get?, put, List.lookup_cons, hb, h, lookup_filter_ne]

/-- What is taken is what was stored, and is made only if there was nothing. -/
theorem take_fst (s : Shelf κ α) (k : κ) (make : Unit → α) :
    (s.take k make).1 = (s.get? k).getD (make ()) := by
  unfold take look
  cases s.get? k <;> rfl

/-- What is taken is stored under its key from then on; every other key has what it had. -/
theorem get?_take (s : Shelf κ α) (k l : κ) (make : Unit → α) :
    (s.take k make).2.get? l =
      if l = k then some ((s.get? k).getD (make ())) else s.get? l := by
  cases hk : s.get? k with
  | some a =>
    have ht : s.take k make = (a, (s.look k).2) := by simp [take, look, hk]
    rw [ht, get?_look]
    by_cases h : l = k
    · simp [h, hk]
    · simp [h]
  | none =>
    have ht : s.take k make = (make (), (s.look k).2.put k (make ())) := by
      simp [take, look, hk]
    rw [ht, get?_put, get?_look]
    rfl

/-- A cleared shelf has nothing under any key. -/
@[simp]
theorem get?_clear (s : Shelf κ α) (k : κ) : s.clear.get? k = none := rfl

end Shelf

end Marquee.Store
