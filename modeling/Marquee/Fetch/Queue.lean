import Marquee.Fetch.Loader
import Marquee.Fetch.Request

/-!
# Load Queues

The loads of one heading wait in a queue. To drive the queue is to ask the load in front:
one that was called off is over; one whose answer is still to come goes to the back; any
other is over with its answer. A loader is called when a load is asked for the first
time.

## Main statements

* `length_drive` — driving a queue that is not empty takes one load from it;
* `drive_eq_none_iff` — nothing is taken from an empty queue only.
-/

namespace Marquee.Fetch

open Scene

/-- What a load is for. -/
structure Errand where
  request : Request
  /-- The generation of the store it was issued under. -/
  generation : Nat
  /-- The number the store tracks it by. -/
  load : Nat
deriving DecidableEq

/-- A load that is not over. -/
structure Load where
  errand : Errand
  response : Response
  /-- Whether its loader was called. -/
  called : Bool := false

/-- A load that is over. -/
structure Delivery where
  errand : Errand
  /-- What was answered; nothing if the load was called off. -/
  result : Option (Except Error Texture)

namespace Load

/-- The load after its answer was found still to come. -/
def asked (l : Load) : Load :=
  { l with response := { l.response with delay := l.response.delay - 1 }, called := true }

/-- One if asking the load calls its loader. -/
def calls (l : Load) : Nat := if l.called then 0 else 1

end Load

/-- How many times the loads of a queue still have to be asked in vain. -/
def patience : List Load → Nat
  | [] => 0
  | l :: q => l.response.delay + patience q

/-- Queues in a row take as long as both. -/
theorem patience_append (q r : List Load) : patience (q ++ r) = patience q + patience r := by
  induction q with
  | nil => simp [patience]
  | cons l q ih =>
    rw [List.cons_append, patience, patience, ih]
    omega

/-- Drives a queue until a load is over: that load, the rest of the queue, and how many
times a loader was called. -/
def drive (cancelled : Nat → Bool) (q : List Load) : Option (Delivery × List Load × Nat) :=
  match q with
  | [] => none
  | l :: q =>
    if cancelled l.errand.load then some (⟨l.errand, none⟩, q, 0)
    else if 0 < l.response.delay then
      (drive cancelled (q ++ [l.asked])).map fun (d, q, calls) => (d, q, calls + l.calls)
    else some (⟨l.errand, some l.response.result⟩, q, l.calls)
termination_by patience q
decreasing_by
  rw [patience_append]
  simp only [patience, Load.asked]
  omega

/-- Driving a queue to an answer takes one load out of it. -/
theorem length_drive {cancelled : Nat → Bool} {q rest : List Load} {d : Delivery} {n : Nat}
    (h : drive cancelled q = some (d, rest, n)) : q.length = rest.length + 1 := by
  fun_induction drive cancelled q generalizing d rest n with
  | case1 => simp at h
  | case2 l q hc =>
    obtain ⟨-, rfl, -⟩ : _ ∧ q = rest ∧ _ := by simpa using h
    rfl
  | case3 l q hc hd ih =>
    obtain ⟨⟨d', q', n'⟩, hq, he⟩ := Option.map_eq_some_iff.1 h
    obtain ⟨rfl, rfl, -⟩ : d' = d ∧ q' = rest ∧ _ := by simpa using he
    simpa using ih hq
  | case4 l q hc hd =>
    obtain ⟨-, rfl, -⟩ : _ ∧ q = rest ∧ _ := by simpa using h
    rfl

/-- A queue gives no answer only if nothing is left in it, so waiting always ends. -/
theorem drive_eq_none_iff {cancelled : Nat → Bool} {q : List Load} :
    drive cancelled q = none ↔ q = [] := by
  fun_induction drive cancelled q with
  | case1 => simp
  | case2 => simp
  | case3 l q hc hd ih => simpa using ih
  | case4 => simp

end Marquee.Fetch
