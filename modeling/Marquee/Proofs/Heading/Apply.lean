import Marquee.Heading.Basic
import Marquee.Proofs.Store.Ledger

/-!
# What an Application Does

A load that is over is late, or its generation is the store's and it has an answer. A late
one is dropped; a failure leaves the placeholders; a texture goes to the store and into
the row.

## Main statements

* `apply_cases` — an application is one of these three;
* `isDiscarded_apply_iff` — an outcome says that a load was dropped exactly when the load
  was late;
* `ledger_apply` — for the account of loads, every application finishes one load;
* `child?_swap` — swapping fills the places it is given and no others;
* `drive_perm` — a queue hands out its loads one by one;
* `settleNext_of_some` — settling applies one load and goes on.
-/

namespace Marquee

open Fetch Scene

/-- A load that is not in flight cannot be finished again. -/
theorem Store.finish_eq_self {s : Store} {load : Nat} (h : load ∉ s.inFlight) :
    s.finish load = s := by
  have hfilter : s.inFlight.filter (· != load) = s.inFlight := by
    refine List.filter_eq_self.2 fun n hn => ?_
    rw [bne_iff_ne]
    rintro rfl
    exact h hn
  rw [finish, hfilter]

namespace Heading

/-- Options with a single face that has no ink. -/
def Options.inkless : Options where
  fonts := { regular := ⟨"inkless", fun _ _ => ⟨0, 0, 0, 0, 0⟩⟩ }

/-- The loader that brings a picture of one pixel for any address. -/
def pixelLoader : Loader := fun url => { result := .ok ⟨url, 1, 1⟩ }

/-- A load that a store has no use for: it is of another generation, or was called off. -/
def Late (d : Delivery) (s : Store) : Prop :=
  d.errand.generation ≠ s.generation ∨ d.result = none

/-- Whether a load was dropped. -/
def Outcome.IsDiscarded : Outcome → Prop
  | discarded _ => True
  | _ => False

section Cases

variable {d : Delivery} {h : Heading} {s : Store}

/-- A late load is discarded: it is reported, and the heading is left alone. -/
theorem apply_of_late (late : Late d s) :
    h.apply d s = (.discarded d.errand.request.url,
      [.loadStale d.errand.request.url d.errand.generation s.generation], h,
      s.finish d.errand.load) := by
  rw [apply]
  rcases late with hne | hnone
  · rw [show decide (d.errand.generation = (s.finish d.errand.load).generation) = false from
      decide_eq_false hne]
    rfl
  · rw [hnone]
    split
    · next hok => cases hok
    · next herror => cases herror
    · rfl

/-- A load that failed is reported, and the heading is left alone. -/
theorem apply_of_error {e : Error} (current : d.errand.generation = s.generation)
    (failed : d.result = some (.error e)) :
    h.apply d s = (.failed d.errand.request.url,
      [.loadFailed d.errand.request.emoteId e.message], h, s.finish d.errand.load) := by
  rw [apply, failed, show decide (d.errand.generation =
    (s.finish d.errand.load).generation) = true from decide_eq_true current]

/-- A load that brings a picture shows it in its places and stores it under its address. -/
theorem apply_of_ok {t : Texture} (current : d.errand.generation = s.generation)
    (loaded : d.result = some (.ok t)) :
    h.apply d s = (.swapped d.errand.request.url (swap h.stack t d.errand.request.slots h.row).2,
      [], { h with row := (swap h.stack t d.errand.request.slots h.row).1 },
      (s.finish d.errand.load).insertTexture d.errand.request.url t) := by
  rw [apply, loaded, show decide (d.errand.generation =
    (s.finish d.errand.load).generation) = true from decide_eq_true current]

end Cases

/-- What is not late is of the store's generation and has an answer. -/
theorem not_late_iff {d : Delivery} {s : Store} :
    ¬ Late d s ↔ d.errand.generation = s.generation ∧ ∃ r, d.result = some r := by
  rw [Late, not_or, not_not, ← ne_eq, Option.ne_none_iff_exists']

/-- **The three applications.** The load is dropped, or its failure noted, or its texture
put where it belongs; each time the load is done. -/
theorem apply_cases (d : Delivery) (h : Heading) (s : Store) :
    (Late d s ∧ (h.apply d s).1 = .discarded d.errand.request.url ∧
        (h.apply d s).2.2 = (h, s.finish d.errand.load)) ∨
      (¬ Late d s ∧ (h.apply d s).1 = .failed d.errand.request.url ∧
        (h.apply d s).2.2 = (h, s.finish d.errand.load)) ∨
      ∃ t, ¬ Late d s ∧ d.result = some (.ok t) ∧
        (h.apply d s).1 = .swapped d.errand.request.url
          (swap h.stack t d.errand.request.slots h.row).2 ∧
        (h.apply d s).2.2 = ({ h with row := (swap h.stack t d.errand.request.slots h.row).1 },
          (s.finish d.errand.load).insertTexture d.errand.request.url t) := by
  by_cases late : Late d s
  · rw [apply_of_late late]
    exact .inl ⟨late, rfl, rfl⟩
  · obtain ⟨hgen, e | t, hresult⟩ := not_late_iff.1 late
    · rw [apply_of_error hgen hresult]
      exact .inr (.inl ⟨late, rfl, rfl⟩)
    · rw [apply_of_ok hgen hresult]
      exact .inr (.inr ⟨t, late, hresult, rfl, rfl⟩)

/-- A load is discarded if and only if it is late. -/
theorem isDiscarded_apply_iff {d : Delivery} {h : Heading} {s : Store} :
    (h.apply d s).1.IsDiscarded ↔ Late d s := by
  rcases apply_cases d h s with ⟨late, hout, -⟩ | ⟨htime, hout, -⟩ | ⟨t, htime, -, hout, -⟩
  · rw [hout]
    exact ⟨fun _ => late, fun _ => trivial⟩
  · rw [hout]
    exact ⟨fun himp => himp.elim, fun late => absurd late htime⟩
  · rw [hout]
    exact ⟨fun himp => himp.elim, fun late => absurd late htime⟩

/-- For the account of loads, every application finishes one load. -/
theorem ledger_apply (d : Delivery) (h : Heading) (s : Store) :
    (h.apply d s).2.2.2.ledger = s.ledger.finish d.errand.load := by
  rcases apply_cases d h s with ⟨-, -, heq⟩ | ⟨-, -, heq⟩ | ⟨t, -, -, -, heq⟩
  · rw [heq, Store.ledger_finish]
  · rw [heq, Store.ledger_finish]
  · rw [heq, Store.ledger_insertTexture, Store.ledger_finish]

/-- An application touches the row of a heading and nothing else of it. -/
theorem apply_heading (d : Delivery) (h : Heading) (s : Store) :
    (h.apply d s).2.2.1 = { h with row := (h.apply d s).2.2.1.row } := by
  rcases apply_cases d h s with ⟨-, -, heq⟩ | ⟨-, -, heq⟩ | ⟨t, -, -, -, heq⟩
  all_goals rw [heq]

/-! ### Swapping -/

/-- A group that is replaced is the new one; all others are the same. -/
theorem child?_setChild {row g : Group} {j : Nat} (there : (row.child? j).isSome) (i : Nat) :
    (row.setChild j g.toNode).child? i = if i = j then some g else row.child? i := by
  have hlt : j < row.children.length := by
    by_contra hge
    rw [Group.child?, List.getElem?_eq_none (Nat.le_of_not_lt hge)] at there
    cases there
  by_cases h : i = j
  · subst h
    rw [Group.child?, Group.setChild, List.getElem?_set_self hlt, if_pos rfl]
    rfl
  · rw [Group.child?, Group.setChild, List.getElem?_set_ne (Ne.symm h), if_neg h]
    rfl

/-- A group with a picture in it, in place of whatever it had. -/
def Stack.fill (stack : Stack) (t : Texture) (g : Group) : Group :=
  { g with children := stack.sprites t }

/-- A place with a group is filled and counted, and then the others are. -/
theorem swap_cons_some {stack : Stack} {t : Texture} {slot : Nat} {slots : List Nat}
    {row g : Group} (hg : row.child? slot = some g) :
    swap stack t (slot :: slots) row =
      ((swap stack t slots (row.setChild slot (stack.fill t g).toNode)).1,
        (swap stack t slots (row.setChild slot (stack.fill t g).toNode)).2 + 1) := by
  rw [swap, hg]
  rfl

/-- A place without a group is passed over. -/
theorem swap_cons_none {stack : Stack} {t : Texture} {slot : Nat} {slots : List Nat}
    {row : Group} (hnone : row.child? slot = none) :
    swap stack t (slot :: slots) row = swap stack t slots row := by
  rw [swap, hnone]

/-- Swapping touches neither the row itself nor the number of its children. -/
theorem swap_row (stack : Stack) (t : Texture) (slots : List Nat) (row : Group) :
    (swap stack t slots row).1.name = row.name ∧
      (swap stack t slots row).1.transform = row.transform ∧
      (swap stack t slots row).1.children.length = row.children.length := by
  induction slots generalizing row with
  | nil => exact ⟨rfl, rfl, rfl⟩
  | cons slot slots ih =>
    rcases hg : row.child? slot with _ | g
    · rw [swap_cons_none hg]
      exact ih row
    · rw [swap_cons_some hg]
      obtain ⟨hname, htransform, hlength⟩ := ih (row.setChild slot (stack.fill t g).toNode)
      exact ⟨hname, htransform, hlength.trans List.length_set⟩

/-- **What swapping does to a place.** A place that is given twice is filled twice with the
same picture. -/
theorem child?_swap (stack : Stack) (t : Texture) (slots : List Nat) (row : Group) (i : Nat) :
    (swap stack t slots row).1.child? i =
      if i ∈ slots then (row.child? i).map (stack.fill t) else row.child? i := by
  induction slots generalizing row with
  | nil => rfl
  | cons slot slots ih =>
    rcases hg : row.child? slot with _ | g
    · rw [swap_cons_none hg, ih]
      by_cases h : i = slot
      · subst h
        simp [hg]
      · simp [h]
    · have hsome : (row.child? slot).isSome := by rw [hg]; rfl
      rw [swap_cons_some hg, ih, child?_setChild hsome]
      by_cases h : i = slot
      · subst h
        simp [hg, Stack.fill]
      · simp [h]

/-- A load that is over: called off, or with its answer. -/
def ended (cancelled : Nat → Bool) (l : Load) : Delivery :=
  ⟨l.errand, if cancelled l.errand.load then none else some l.response.result⟩

/-- **The queue hands out one load after the other**, each as it is over. Which one is next
depends on the delays; asking a load does not change how it will be over. -/
theorem drive_perm {cancelled : Nat → Bool} {q rest : List Load} {d : Delivery} {n : Nat}
    (e : drive cancelled q = some (d, rest, n)) :
    (d :: rest.map (ended cancelled)).Perm (q.map (ended cancelled)) := by
  fun_induction drive cancelled q generalizing d rest n with
  | case1 => cases e
  | case2 l q hc =>
    cases e
    rw [List.map_cons, ended, if_pos hc]
  | case3 l q hc hd ih =>
    obtain ⟨⟨d', q', n'⟩, hq, he⟩ := Option.map_eq_some_iff.1 e
    cases he
    refine (ih hq).trans ?_
    rw [List.map_append]
    exact List.perm_append_singleton _ _
  | case4 l q hc hd =>
    cases e
    rw [List.map_cons, ended, if_neg hc]

/-! ### Settling, one load at a time -/

section Settle

variable {cancelled : Nat → Bool} {h after : Heading} {d : Delivery} {calls : Nat}

/-- Without a next answer nothing is settled. -/
theorem settleNext_of_none (last : h.next cancelled = none) (n : Nat) (s : Store) :
    settleNext cancelled n h s = ⟨[], [], 0, h, s⟩ := by
  cases n with
  | zero => rfl
  | succ n => rw [settleNext, last]

/-- The next answer is applied, and then what is left is settled. -/
theorem settleNext_of_some (next : h.next cancelled = some (d, after, calls)) (n : Nat)
    (s : Store) :
    settleNext cancelled (n + 1) h s =
      let more := settleNext cancelled n (after.apply d s).2.2.1 (after.apply d s).2.2.2
      { more with
        outcomes := (after.apply d s).1 :: more.outcomes
        events := (after.apply d s).2.1 ++ more.events
        calls := calls + more.calls } := by
  rw [settleNext, next]

end Settle

end Heading

end Marquee
