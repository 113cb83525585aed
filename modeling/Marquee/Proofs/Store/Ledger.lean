import Marquee.Heading.Compile
import Mathlib.Data.List.Basic
import Mathlib.Tactic.Common

/-!
# The Account of Loads

Of a store, everything that decides about loads: which are under way, which were called
off, the number of the next one, and the generation. The shelves have no part in it, so
laying out a row leaves the account alone; issuing, finishing and clearing each change it
in one way.

A load that is kept somewhere outside the store is `Issued`: its number was given out, and
its generation and the account agree on whether it is of use.

## Main statements

* `ledger_ofLeaves` — a heading takes as many new numbers as it has requests;
* `Ledger.Issued.clear`, `Ledger.Issued.finish`, `Ledger.Issued.enter` — a load that was
  issued stays one, whatever the store does.
-/

namespace Marquee

open Fetch Markup Scene

namespace Store

/-- What a store knows of loads. -/
structure Ledger where
  inFlight : List Nat
  cancelled : List Nat
  nextLoad : Nat
  generation : Nat

/-- The account of loads that a store keeps. -/
def ledger (s : Store) : Ledger := ⟨s.inFlight, s.cancelled, s.nextLoad, s.generation⟩

namespace Ledger

/-- The account after some more loads were issued. -/
def enter (l : Ledger) (count : Nat) : Ledger :=
  { l with
    inFlight := (List.range' l.nextLoad count).reverse ++ l.inFlight
    nextLoad := l.nextLoad + count }

/-- The account after a load was done. -/
def finish (l : Ledger) (load : Nat) : Ledger :=
  { l with inFlight := l.inFlight.filter (· != load) }

/-- The account of the next generation. -/
def clear (l : Ledger) : Ledger :=
  ⟨[], l.inFlight ++ l.cancelled, l.nextLoad, l.generation + 1⟩

end Ledger

/-! ### What each operation does to the account -/

/-- Taking a solid leaves the account of loads as it is. -/
theorem ledger_geometry (s : Store) (k : SolidKey) (build : Unit → TextGeometry × List Event) :
    (s.geometry k build).2.2.ledger = s.ledger := by
  rw [geometry]
  rcases s.geometries.look k with ⟨_ | g, shelf⟩ <;> rfl

/-- So does taking materials. -/
theorem ledger_material (s : Store) (c : Color) : (s.material c).2.ledger = s.ledger := rfl

/-- So does storing a texture. -/
theorem ledger_insertTexture (s : Store) (url : String) (t : Texture) :
    (s.insertTexture url t).ledger = s.ledger := rfl

/-- A load that is done is done in the account. -/
theorem ledger_finish (s : Store) (load : Nat) :
    (s.finish load).ledger = s.ledger.finish load := rfl

end Store

namespace Heading

/-- One more leaf leaves the account of loads as it is. -/
theorem Draft.ledger_add (o : Options) (d : Draft) (leaf : Leaf) :
    (d.add o leaf).store.ledger = d.store.ledger := by
  cases leaf with
  | text value color style =>
    rw [Draft.add]
    split
    · rfl
    · simp only [Draft.run, Store.ledger_material, Store.ledger_geometry]
  | emote id color style => rfl

/-- Laying out a row leaves the account of loads alone. -/
theorem Draft.ledger_ofLeaves (o : Options) (leaves : List Leaf) (s : Store) :
    (Draft.ofLeaves o leaves s).store.ledger = s.ledger := by
  have hfold : ∀ d : Draft, (leaves.foldl (Draft.add o) d).store.ledger = d.store.ledger := by
    induction leaves with
    | nil => exact fun d => rfl
    | cons leaf leaves ih => exact fun d => (ih _).trans (Draft.ledger_add o d leaf)
  exact hfold _

/-- The loads issued for some requests: numbered in order from the next number on, all of
the store's generation. -/
theorem issueAll_loads (loader : Loader) (rs : List Request) (s : Store) :
    (issueAll loader rs s).1 = (rs.zipIdx s.nextLoad).map fun (r, n) =>
      ⟨⟨r, s.generation, n⟩, loader r.url, false⟩ := by
  induction rs generalizing s with
  | nil => rfl
  | cons r rs ih =>
    rw [issueAll, List.zipIdx_cons, List.map_cons]
    exact congrArg (List.cons _) (ih _)

/-- Issuing loads enters them in the account. -/
theorem ledger_issueAll (loader : Loader) (rs : List Request) (s : Store) :
    (issueAll loader rs s).2.2.ledger = s.ledger.enter rs.length := by
  induction rs generalizing s with
  | nil => rfl
  | cons r rs ih =>
    rw [issueAll]
    refine (ih _).trans ?_
    simp only [Store.ledger, Store.Ledger.enter, issue, Store.track, List.length_cons,
      List.range'_succ, List.reverse_cons, List.append_assoc, List.singleton_append,
      Nat.add_assoc, Nat.add_comm 1]

/-- A heading takes as many new numbers as its row has requests. -/
theorem ledger_ofLeaves (o : Options) (loader : Loader) (leaves : List Leaf) (s : Store) :
    (ofLeaves o loader leaves s).2.2.ledger =
      s.ledger.enter (Draft.ofLeaves o leaves s).requests.length := by
  rw [ofLeaves, ← Draft.ledger_ofLeaves o leaves s]
  exact ledger_issueAll loader _ _

/-- The loads of a heading are its requests, numbered from the store's next number on. -/
theorem errands_ofLeaves (o : Options) (loader : Loader) (leaves : List Leaf) (s : Store) :
    (ofLeaves o loader leaves s).1.loads.map (·.errand) =
      ((Draft.ofLeaves o leaves s).requests.zipIdx s.nextLoad).map fun (r, n) =>
        ⟨r, s.generation, n⟩ := by
  have hnext : (Draft.ofLeaves o leaves s).store.nextLoad = s.nextLoad :=
    congrArg Store.Ledger.nextLoad (Draft.ledger_ofLeaves o leaves s)
  have hgen : (Draft.ofLeaves o leaves s).store.generation = s.generation :=
    congrArg Store.Ledger.generation (Draft.ledger_ofLeaves o leaves s)
  have hloads := issueAll_loads loader (Draft.ofLeaves o leaves s).requests
    (Draft.ofLeaves o leaves s).store
  rw [hnext, hgen] at hloads
  calc (ofLeaves o loader leaves s).1.loads.map (·.errand)
      = (issueAll loader (Draft.ofLeaves o leaves s).requests
          (Draft.ofLeaves o leaves s).store).1.map (·.errand) := rfl
    _ = _ := by rw [hloads, List.map_map]; rfl

/-- A heading has as many loads as its row has requests. -/
theorem length_errands_ofLeaves (o : Options) (loader : Loader) (leaves : List Leaf) (s : Store) :
    ((ofLeaves o loader leaves s).1.loads.map (·.errand)).length =
      (Draft.ofLeaves o leaves s).requests.length := by
  rw [errands_ofLeaves, List.length_map, List.length_zipIdx]

/-- The loads of a heading just set have the next numbers. -/
theorem map_load_ofLeaves (o : Options) (loader : Loader) (leaves : List Leaf) (s : Store) :
    ((ofLeaves o loader leaves s).1.loads.map (·.errand)).map (·.load) =
      List.range' s.nextLoad ((ofLeaves o loader leaves s).1.loads.map (·.errand)).length := by
  rw [length_errands_ofLeaves, errands_ofLeaves, List.map_map, ← List.zipIdx_map_snd s.nextLoad]
  rfl

end Heading

namespace Store.Ledger

/-! ### Loads that were issued -/

/-- Only numbers that were given out are in use. -/
structure Sound (l : Ledger) : Prop where
  inFlight_lt : ∀ n ∈ l.inFlight, n < l.nextLoad
  cancelled_lt : ∀ n ∈ l.cancelled, n < l.nextLoad

/-- A load whose number was given out. Of the current generation it was not called off; of
an earlier one it is no longer under way. -/
structure Issued (l : Ledger) (e : Errand) : Prop where
  load_lt : e.load < l.nextLoad
  generation_le : e.generation ≤ l.generation
  current : e.generation = l.generation → e.load ∉ l.cancelled
  stale : e.generation < l.generation → e.load ∉ l.inFlight

/-- New numbers are the next ones, so only numbers that were given out stay in use. -/
theorem Sound.enter {l : Ledger} (h : l.Sound) (count : Nat) : (l.enter count).Sound := by
  constructor
  · intro n hn
    rcases List.mem_append.1 hn with hn | hn
    · rw [List.mem_reverse, List.mem_range'_1] at hn
      exact hn.2
    · exact Nat.lt_add_right _ (h.inFlight_lt n hn)
  · exact fun n hn => Nat.lt_add_right _ (h.cancelled_lt n hn)

/-- Finishing a load brings no number into use. -/
theorem Sound.finish {l : Ledger} (h : l.Sound) (load : Nat) : (l.finish load).Sound :=
  ⟨fun n hn => h.inFlight_lt n (List.mem_of_mem_filter hn), h.cancelled_lt⟩

/-- A clearing brings no number into use either; those in use are called off. -/
theorem Sound.clear {l : Ledger} (h : l.Sound) : l.clear.Sound := by
  constructor
  · intro n hn
    cases hn
  · intro n hn
    rcases List.mem_append.1 hn with hn | hn
    · exact h.inFlight_lt n hn
    · exact h.cancelled_lt n hn

/-- A load that was issued stays so when others are. -/
theorem Issued.enter {l : Ledger} {e : Errand} (h : l.Issued e) (count : Nat) :
    (l.enter count).Issued e := by
  refine ⟨Nat.lt_add_right _ h.load_lt, h.generation_le, h.current, fun hlt hmem => ?_⟩
  rcases List.mem_append.1 hmem with hmem | hmem
  · rw [List.mem_reverse, List.mem_range'_1] at hmem
    exact absurd h.load_lt (Nat.not_lt.2 hmem.1)
  · exact h.stale hlt hmem

/-- It stays so when a load is done. -/
theorem Issued.finish {l : Ledger} {e : Errand} (h : l.Issued e) (load : Nat) :
    (l.finish load).Issued e :=
  ⟨h.load_lt, h.generation_le, h.current, fun hlt hmem =>
    h.stale hlt (List.mem_of_mem_filter hmem)⟩

/-- A clearing makes every load one of an earlier generation. -/
theorem Issued.clear {l : Ledger} {e : Errand} (h : l.Issued e) : l.clear.Issued e := by
  have hlt : e.generation < l.generation + 1 := Nat.lt_succ_of_le h.generation_le
  exact ⟨h.load_lt, Nat.le_of_lt hlt, fun heq => absurd heq (Nat.ne_of_lt hlt), fun _ hmem => by
    cases hmem⟩

/-- A load just issued. -/
theorem Sound.issued {l : Ledger} (h : l.Sound) {r : Request} {n count : Nat}
    (hle : l.nextLoad ≤ n) (hlt : n < l.nextLoad + count) :
    (l.enter count).Issued ⟨r, l.generation, n⟩ :=
  ⟨hlt, Nat.le_refl _, fun _ hmem => absurd (h.cancelled_lt n hmem) (Nat.not_lt.2 hle),
    fun hgen => absurd hgen (Nat.lt_irrefl _)⟩

end Store.Ledger

/-- No load of a heading just set was called off. -/
theorem Heading.not_cancelled_ofLeaves {s : Store} (sound : s.ledger.Sound) (o : Options)
    (loader : Loader) (leaves : List Leaf) {e : Errand}
    (own : e ∈ (ofLeaves o loader leaves s).1.loads.map (·.errand)) :
    ¬ (ofLeaves o loader leaves s).2.2.isCancelled e.load := by
  have hcancelled : (ofLeaves o loader leaves s).2.2.cancelled = s.cancelled :=
    congrArg Store.Ledger.cancelled (ledger_ofLeaves o loader leaves s)
  rw [errands_ofLeaves] at own
  obtain ⟨⟨r, n⟩, hmem, rfl⟩ := List.mem_map.1 own
  intro called
  rw [Store.isCancelled, hcancelled, List.contains_iff_mem] at called
  exact absurd (sound.cancelled_lt n called) (Nat.not_lt.2 (List.mem_zipIdx hmem).1)

end Marquee
