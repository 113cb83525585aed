import Marquee.Fetch.Queue
import Marquee.Heading.Row

/-!
# Headings

A heading is a row of leaves under a pivot, and the loads that it still waits for. It can
be shown at any time: what is not there yet has a placeholder. Each load that is over is
applied to the heading and the store: a texture of the store's generation goes to the
store and takes the places of the placeholders that waited for it; one that was called
off or comes from an earlier generation is dropped.

## Main statements

* `next_eq_none_iff` — there is a next load as long as one is pending;
* `pending_next` — which is then pending no more.
-/

namespace Marquee

open Fetch Markup Scene

/-- A heading and what it waits for. -/
structure Heading where
  /-- The group at the place that was asked for. The row is not in it yet. -/
  pivot : Group
  /-- How far the row reaches before it is centered. -/
  width : Float32
  row : Group
  /-- The measures of its emotes. -/
  stack : Heading.Stack
  loads : List Load

namespace Heading

/-! ### Setting -/

/-- The load for a request, tracked by the store. -/
def issue (loader : Loader) (r : Request) (store : Store) : Load × Event × Store :=
  let (load, store) := store.track
  (⟨⟨r, store.generation, load⟩, loader r.url, false⟩,
    .loadQueued r.url r.slots.length store.generation, store)

/-- The loads for some requests, in order. -/
def issueAll (loader : Loader) : List Request → Store → List Load × List Event × Store
  | [], store => ([], [], store)
  | r :: rs, store =>
    let (load, event, store) := issue loader r store
    let (loads, events, store) := issueAll loader rs store
    (load :: loads, event :: events, store)

/-- The heading of some leaves, what setting it reports, and the store afterwards. -/
def ofLeaves (o : Options) (loader : Loader) (leaves : List Leaf) (store : Store) :
    Heading × List Event × Store :=
  let draft := Draft.ofLeaves o leaves store
  let (loads, queued, store) := issueAll loader draft.requests draft.store
  ({ pivot := (Group.named "pivot").withPosition o.position
     width := draft.cursor
     row := draft.row
     stack := .ofOptions o
     loads },
    draft.events ++ queued, store)

/-- The number of loads that are not over. -/
def pending (h : Heading) : Nat := h.loads.length

/-- The heading as it stands: the pivot with the row in it. -/
def scene (h : Heading) : Group := h.pivot.add h.row.toNode

/-! ### Loads -/

/-- The next load to be over, the heading without it, and how many times a loader was
called meanwhile. -/
def next (cancelled : Nat → Bool) (h : Heading) : Option (Delivery × Heading × Nat) :=
  (drive cancelled h.loads).map fun (d, loads, calls) => (d, { h with loads }, calls)

/-- What became of a load. -/
inductive Outcome where
  /-- Its texture replaced the placeholders of some emotes. -/
  | swapped (url : String) (emotes : Nat)
  /-- There is no texture; the placeholders stay. -/
  | failed (url : String)
  /-- It came too late for anything. -/
  | discarded (url : String)
deriving DecidableEq

/-- The row with the picture in the places that wait for it, as far as they are groups,
and how many are. -/
def swap (stack : Stack) (t : Texture) : List Nat → Group → Group × Nat
  | [], row => (row, 0)
  | slot :: slots, row =>
    match row.child? slot with
    | some g =>
      let filled := { g with children := stack.sprites t }
      let (row, emotes) := swap stack t slots (row.setChild slot filled.toNode)
      (row, emotes + 1)
    | none => swap stack t slots row

/-- Applies a load that is over. -/
def apply (d : Delivery) (h : Heading) (store : Store) :
    Outcome × List Event × Heading × Store :=
  let r := d.errand.request
  let store := store.finish d.errand.load
  let current := decide (d.errand.generation = store.generation)
  match current, d.result with
  | true, some (.ok t) =>
    let (row, emotes) := swap h.stack t r.slots h.row
    (.swapped r.url emotes, [], { h with row }, store.insertTexture r.url t)
  | true, some (.error e) => (.failed r.url, [.loadFailed r.emoteId e.message], h, store)
  | _, _ =>
    (.discarded r.url, [.loadStale r.url d.errand.generation store.generation], h, store)

/-- What came of waiting for loads. -/
structure Settled where
  outcomes : List Outcome
  events : List Event
  /-- How many times a loader was called. -/
  calls : Nat
  heading : Heading
  store : Store

/-- Applies the next loads to be over, so many at most. -/
def settleNext (cancelled : Nat → Bool) : Nat → Heading → Store → Settled
  | 0, h, store => ⟨[], [], 0, h, store⟩
  | n + 1, h, store =>
    match h.next cancelled with
    | none => ⟨[], [], 0, h, store⟩
    | some (d, h, calls) =>
      let (outcome, events, h, store) := h.apply d store
      let more := settleNext cancelled n h store
      { more with
        outcomes := outcome :: more.outcomes
        events := events ++ more.events
        calls := calls + more.calls }

/-- Applies every load as it comes to its end. -/
def settle (cancelled : Nat → Bool) (h : Heading) (store : Store) : Settled :=
  settleNext cancelled h.pending h store

/-- There is no next answer only when nothing is pending. -/
theorem next_eq_none_iff {cancelled : Nat → Bool} {h : Heading} :
    h.next cancelled = none ↔ h.pending = 0 := by
  simp [next, drive_eq_none_iff, pending]

/-- Every answer leaves one load less pending. -/
theorem pending_next {cancelled : Nat → Bool} {h after : Heading} {d : Delivery} {n : Nat}
    (e : h.next cancelled = some (d, after, n)) : h.pending = after.pending + 1 := by
  obtain ⟨⟨d', loads, n'⟩, hd, he⟩ := Option.map_eq_some_iff.1 e
  obtain ⟨-, rfl, -⟩ : d' = d ∧ { h with loads } = after ∧ n' = n := by simpa using he
  exact length_drive hd

end Heading

end Marquee
