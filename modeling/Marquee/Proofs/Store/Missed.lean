import Marquee.Store.Basic
import Mathlib.Data.List.Dedup

/-!
# What Was Not There

Things are taken from a shelf under some keys, in order. What is missing is made and put there, so
each key is missed once at most: the first time, if nothing was under it before.

## Main statements

* `Shelf.missed_take`, `Shelf.Missed.trans` — taking one thing, and some things after others;
* `Shelf.Missed.length_filter` — over an empty shelf the distinct keys are missed.
-/

namespace Marquee.Store.Shelf

variable {κ α : Type} [DecidableEq κ] {s t u : Shelf κ α} {keys misses keys' misses' : List κ}

/-- From a shelf to a later one: things were taken under `keys`, and those under `misses` were
not there. -/
structure Missed (s t : Shelf κ α) (keys misses : List κ) : Prop where
  usage : t.usage.misses = s.usage.misses + misses.length
  /-- What was asked for is there from then on, and nothing goes away. -/
  none_iff : ∀ k, t.get? k = none ↔ s.get? k = none ∧ k ∉ keys
  mem_iff : ∀ k, k ∈ misses ↔ k ∈ keys ∧ s.get? k = none
  nodup : misses.Nodup

/-- Where nothing is taken, nothing is missed. -/
theorem Missed.refl (s : Shelf κ α) : s.Missed s [] [] where
  usage := rfl
  none_iff _ := (and_iff_left List.not_mem_nil).symm
  mem_iff _ := ⟨fun h => (List.not_mem_nil h).elim, fun h => h.1⟩
  nodup := List.nodup_nil

/-- Of things taken later, none is missed that was asked for before: it is there by then. -/
theorem Missed.trans (first : s.Missed t keys misses) (later : t.Missed u keys' misses') :
    s.Missed u (keys ++ keys') (misses ++ misses') where
  usage := by
    rw [later.usage, first.usage, List.length_append, Nat.add_assoc]
  none_iff k := by
    rw [later.none_iff, first.none_iff, List.mem_append, not_or, and_assoc]
  mem_iff k := by
    rw [List.mem_append, List.mem_append, first.mem_iff, later.mem_iff, first.none_iff]
    by_cases hk : k ∈ keys
    · simp [hk]
    · simp [hk]
  nodup := by
    refine List.nodup_append.2 ⟨first.nodup, later.nodup, ?_⟩
    rintro k hk _ hk' rfl
    exact ((first.none_iff k).1 ((later.mem_iff k).1 hk').2).2 ((first.mem_iff k).1 hk).1

/-- **One thing is taken**, and missed if nothing is there. -/
theorem missed_take (s : Shelf κ α) (k : κ) (make : Unit → α) :
    s.Missed (s.take k make).2 [k] ([k].filter fun l => (s.get? l).isNone) where
  usage := by
    rw [take, look]
    rcases hget : s.get? k with _ | a
    · simp [put, hget]
    · simp [hget]
  none_iff l := by
    rw [get?_take, List.mem_singleton]
    split
    · next heq => simp [heq]
    · next hne => simp [hne]
  mem_iff l := by
    rw [List.mem_filter, Option.isNone_iff_eq_none]
  nodup := (List.nodup_singleton k).filter _

/-- **Over an empty shelf** the distinct keys are missed, each once. -/
theorem Missed.length_filter (missed : s.Missed t keys misses) (empty : ∀ k, s.get? k = none)
    (p : κ → Bool) : (misses.filter p).length = (keys.filter p).dedup.length := by
  refine ((List.perm_ext_iff_of_nodup (missed.nodup.filter p) (List.nodup_dedup _)).2
    fun k => ?_).length_eq
  rw [List.mem_dedup, List.mem_filter, List.mem_filter, missed.mem_iff, and_iff_left (empty k)]

end Marquee.Store.Shelf
