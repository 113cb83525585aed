import Marquee.Markup.Reader
import Mathlib.Data.List.Basic

/-!
# Ends Among Tokens

A reading stops behind an end token and can be taken up there. The pen is kept and the leaves
start afresh, so ends cut what is read into pieces and do nothing else: the pieces joined are
what one reading makes of the same tokens without any end. Nothing is asked of the tokens; ends
may stand in front, side by side, or nowhere.

Readings are counted by the tokens alone. Each end takes one, and so do the tokens behind the
last end, if there are any.

## Main statements

* `calls_walk` — a reading is one of those that the tokens take;
* `joined_readings` — what was read so far, and what the rest would be without its ends;
* `ends_unseen` — the leaves and the pen, once no token is left.
-/

namespace Marquee.Markup

/-- Some tokens without the ends among them. -/
def seamless (ts : List Token) : List Token := ts.filter (·.kind ≠ .eof)

/-- The number of readings that some tokens take. -/
def calls : List Token → ℕ
  | [] => 0
  | t :: ts => if t.kind = .eof then calls ts + 1 else max (calls ts) 1

section Tokens

variable {t : Token} {ts : List Token}

/-- An end token is left out. -/
theorem seamless_cons_of_eof (h : t.kind = .eof) : seamless (t :: ts) = seamless ts :=
  List.filter_cons_of_neg (by simp [h])

/-- Any other token is kept. -/
theorem seamless_cons_of_ne (h : t.kind ≠ .eof) : seamless (t :: ts) = t :: seamless ts :=
  List.filter_cons_of_pos (by simp [h])

/-- No reading is needed exactly if there are no tokens. -/
theorem calls_eq_zero_iff : calls ts = 0 ↔ ts = [] := by
  cases ts with
  | nil => exact iff_of_true rfl rfl
  | cons t ts =>
    refine iff_of_false ?_ (List.cons_ne_nil t ts)
    rw [calls]
    split <;> omega

end Tokens

namespace Reader

/-! ### One reading -/

/-- **A reading** leaves one call fewer to do. -/
theorem calls_walk (p : Pen) (ts : List Token) : calls (walk p ts).2.2 = calls ts - 1 := by
  induction ts generalizing p with
  | nil => rfl
  | cons t ts ih =>
    have hpass (h : t.kind ≠ .eof) : calls ts - 1 = calls (t :: ts) - 1 := by
      rw [calls, if_neg h]
      omega
    rw [walk]
    split
    · next h => exact (ih p).trans (hpass (by simp [h]))
    · next id h => exact (ih p).trans (hpass (by simp [h]))
    · next name h => exact (ih _).trans (hpass (by simp [h]))
    · next s h => exact (ih _).trans (hpass (by simp [h]))
    · next h =>
      rw [calls, if_pos h]
      rfl

/-- Without ends, the same reading goes on with the tokens behind the first of them. -/
theorem walk_seamless (p : Pen) (ts : List Token) :
    walk p (seamless ts) =
      ((walk p ts).1 ++ (walk (walk p ts).2.1 (seamless (walk p ts).2.2)).1,
        (walk (walk p ts).2.1 (seamless (walk p ts).2.2)).2) := by
  induction ts generalizing p with
  | nil => rfl
  | cons t ts ih =>
    by_cases hend : t.kind = .eof
    · rw [seamless_cons_of_eof hend, walk, hend]
      rfl
    · rw [seamless_cons_of_ne hend, walk, walk]
      split
      · rw [ih]
        rfl
      · rw [ih]
        rfl
      · exact ih _
      · exact ih _
      · next h => exact absurd h hend

/-- A reader of the same tokens without ends. -/
def seamless (r : Reader) : Reader := ⟨Markup.seamless r.tokens, r.pen⟩

/-- Without the ends, one reading gives the leaves of the next reading and then those of all the
others. -/
theorem read_seamless (r : Reader) :
    r.seamless.read.1 = r.read.1 ++ r.read.2.2.seamless.read.1 ∧
      r.seamless.read.2 = r.read.2.2.seamless.read.2 := by
  have hwalk := walk_seamless r.pen r.tokens
  simp only [seamless, read, hwalk, and_self]

/-- A reader with no tokens left yields nothing and stays as it is. -/
theorem read_of_spent {r : Reader} (spent : r.tokens = []) : r.read.1 = [] ∧ r.read.2.2 = r := by
  obtain ⟨tokens, pen⟩ := r
  obtain rfl : tokens = [] := spent
  exact ⟨rfl, rfl⟩

/-- Without tokens there are no ends to leave out. -/
theorem seamless_of_spent {r : Reader} (spent : r.tokens = []) : r.seamless = r := by
  obtain ⟨tokens, pen⟩ := r
  obtain rfl : tokens = [] := spent
  rfl

/-! ### Many readings -/

/-- What so many readings yield, each its own leaves, and the reader behind them. -/
def readings : ℕ → Reader → List (List Leaf) × Reader
  | 0, r => ([], r)
  | n + 1, r => (r.read.1 :: (readings n r.read.2.2).1, (readings n r.read.2.2).2)

/-- Every reading that is done is one that is not needed any more. -/
theorem calls_readings (n : ℕ) (r : Reader) :
    calls (readings n r).2.tokens = calls r.tokens - n := by
  induction n generalizing r with
  | zero => rfl
  | succ n ih =>
    have hread : calls r.read.2.2.tokens = calls r.tokens - 1 := calls_walk r.pen r.tokens
    rw [readings, ih, hread]
    omega

/-- **What was read so far**, and what one reading would make of the rest without its ends. -/
theorem joined_readings (n : ℕ) (r : Reader) :
    (readings n r).1.flatten ++ (readings n r).2.seamless.read.1 = r.seamless.read.1 ∧
      (readings n r).2.seamless.read.2 = r.seamless.read.2 := by
  induction n generalizing r with
  | zero => exact ⟨rfl, rfl⟩
  | succ n ih =>
    obtain ⟨hleaves, hlast⟩ := ih r.read.2.2
    obtain ⟨hleaves', hlast'⟩ := read_seamless r
    constructor
    · rw [hleaves', ← hleaves, readings, List.flatten_cons, List.append_assoc]
    · exact hlast.trans hlast'.symm

/-- **Ends are not seen.** Whatever tokens a reader has and whatever its pen, it takes the number
of calls that the tokens say until no token is left. The leaves of these readings, joined in
order, are those of one reading of the same tokens without ends; so is the reader behind them,
with its color, its style and the styles beneath. Further readings yield no leaves and change
nothing. -/
theorem ends_unseen (r : Reader) (more : ℕ) :
    let last := (readings (calls r.tokens + more) r).2
    (∀ n, (readings n r).2.tokens = [] ↔ calls r.tokens ≤ n) ∧
      (readings (calls r.tokens + more) r).1.flatten = r.seamless.read.1 ∧
      last = r.seamless.read.2.2 ∧ last.read.1 = [] ∧ last.read.2.2 = last := by
  intro last
  have hcalls (n : ℕ) : (readings n r).2.tokens = [] ↔ calls r.tokens ≤ n := by
    rw [← calls_eq_zero_iff, calls_readings]
    omega
  have spent : last.tokens = [] := (hcalls _).2 (Nat.le_add_right _ more)
  obtain ⟨hread, hstay⟩ := read_of_spent spent
  obtain ⟨hleaves, hlast⟩ := joined_readings (calls r.tokens + more) r
  rw [seamless_of_spent spent] at hleaves hlast
  refine ⟨hcalls, ?_, ?_, hread, hstay⟩
  · rw [← hleaves, hread, List.append_nil]
  · rw [← hlast, hstay]

end Reader

end Marquee.Markup
