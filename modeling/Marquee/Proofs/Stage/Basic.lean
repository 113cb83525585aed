import Marquee.Proofs.Heading.Apply

/-!
# Headings over One Store

A stage is one store with all that was ever set over it: the headings, by any options and
any loader, and the loads that are over but not applied yet. Five acts change it: setting a
heading, compiling markup, clearing the store, taking a load that is over, and applying
one. They come in any order and as often as one likes.

Which load of a heading is over next is left open, and so is its answer; only a load that
was called off may come without one. The queue of `Fetch.drive` is one way to choose
(`Heading.yields_next`), so settling a heading is a run of takes and applications.

## Main statements

* `Heading.yields_next` — what the queue hands out is a load of the heading, once;
* `Step.sound`, `Run.sound` — on every stage that a program can reach, each load it still
  holds was issued by the store, and one without an answer was called off;
* `Step.awaits`, `Run.awaits` — a heading never comes to hold loads that were not issued
  for it;
* `Run.generation` — the generation of the store counts the clearings;
* `exists_run_settleNext` — settling a heading is a run.
-/

namespace Marquee

open Fetch Markup Scene

namespace Heading

/-- Some load of a heading is over: `d` is its delivery, and `after` the heading without
it. What becomes of the other loads' answers is not said. -/
structure Yields (h : Heading) (store : Store) (d : Delivery) (after : Heading) : Prop where
  queue : (d.errand :: after.loads.map (·.errand)).Perm (h.loads.map (·.errand))
  rest : after = { h with loads := after.loads }
  /-- Only a load that was called off has no answer. -/
  called_off : d.result = none → d.errand.load ∈ store.cancelled

end Heading

/-- A store, the headings set over it in order, and the loads that are over but not
applied, each with the index of its heading. -/
structure Stage where
  store : Store
  headings : List Heading
  taken : List (Nat × Delivery)

/-- What a program does to a stage. -/
inductive Act where
  /-- Sets a heading of some leaves. -/
  | set (o : Heading.Options) (loader : Loader) (leaves : List Leaf)
  /-- Compiles markup: clears the store, then sets a heading. -/
  | compile (o : Heading.Options) (loader : Loader) (markup : String)
  /-- Clears the store. -/
  | clear
  /-- Takes a load of a heading that is over. -/
  | take (heading : Nat) (d : Delivery)
  /-- Applies a load of a heading, to the heading `target`. -/
  | apply (heading : Nat) (d : Delivery) (target : Nat)

namespace Act

/-- Whether an act clears the store. -/
def clears : Act → Bool
  | compile .. | clear => true
  | _ => false

/-- Whether an act sets a heading. -/
def sets : Act → Bool
  | set .. | compile .. => true
  | _ => false

end Act

namespace Stage

/-- A new store with nothing set over it. -/
def start : Stage := ⟨{}, [], []⟩

/-- The stage with the store cleared. -/
def cleared (w : Stage) : Stage := { w with store := w.store.clear.2.2 }

/-- The stage with one more heading, and the store that setting it left. -/
def hang (w : Stage) (r : Heading × List Event × Store) : Stage :=
  ⟨r.2.2, w.headings ++ [r.1], w.taken⟩

/-- The stage after an application to the heading at an index. -/
def put (w : Stage) (j : Nat) (r : Heading.Outcome × List Event × Heading × Store)
    (taken : List (Nat × Delivery)) : Stage :=
  ⟨r.2.2.2, w.headings.set j r.2.2.1, taken⟩

/-- The heading at an index still holds a load: it is pending, or taken but not applied. -/
def Awaits (w : Stage) (i : Nat) (e : Errand) : Prop :=
  (∃ h, w.headings[i]? = some h ∧ e ∈ h.loads.map (·.errand)) ∨
    ∃ d : Delivery, (i, d) ∈ w.taken ∧ d.errand = e

end Stage

/-- One act of a program. -/
inductive Step : Stage → Act → Stage → Prop
  | set {w : Stage} (o : Heading.Options) (loader : Loader) (leaves : List Leaf) :
      Step w (.set o loader leaves) (w.hang (Heading.ofLeaves o loader leaves w.store))
  | compile {w : Stage} (o : Heading.Options) (loader : Loader) (markup : String) :
      Step w (.compile o loader markup) (w.hang (Heading.compile o loader markup w.store))
  | clear {w : Stage} : Step w .clear w.cleared
  | take {w : Stage} {i : Nat} {h after : Heading} {d : Delivery}
      (here : w.headings[i]? = some h) (yields : h.Yields w.store d after) :
      Step w (.take i d)
        { w with headings := w.headings.set i after, taken := (i, d) :: w.taken }
  | apply {w : Stage} {i j : Nat} {h : Heading} {d : Delivery} {taken : List (Nat × Delivery)}
      (held : w.taken.Perm ((i, d) :: taken)) (here : w.headings[j]? = some h) :
      Step w (.apply i d j) (w.put j (h.apply d w.store) taken)

/-- Some acts of a program, one after the other. -/
inductive Run : Stage → List Act → Stage → Prop
  | nil {w : Stage} : Run w [] w
  | cons {w w₁ w₂ : Stage} {a : Act} {acts : List Act} :
      Step w a w₁ → Run w₁ acts w₂ → Run w (a :: acts) w₂

/-! ### Loads that are over -/

namespace Heading

/-- A queue that is driven loses the load that it answers for, and only a load that was called off
has no answer. -/
theorem yields_drive {store : Store} {q rest : List Load} {d : Delivery} {n : Nat}
    (e : drive store.isCancelled q = some (d, rest, n)) :
    (d.errand :: rest.map (·.errand)).Perm (q.map (·.errand)) ∧
      (d.result = none → d.errand.load ∈ store.cancelled) := by
  have perm := drive_perm e
  constructor
  · have herrands := perm.map (·.errand)
    rwa [List.map_cons, List.map_map, List.map_map] at herrands
  · obtain ⟨l, -, rfl⟩ := List.mem_map.1 (perm.subset List.mem_cons_self)
    intro hnone
    by_contra hload
    have hlive : ¬ store.isCancelled l.errand.load := fun hc => hload (List.contains_iff_mem.1 hc)
    rw [ended, if_neg hlive] at hnone
    cases hnone

/-- What the queue hands out is a load of the heading, and no other is lost. -/
theorem yields_next {store : Store} {h after : Heading} {d : Delivery} {n : Nat}
    (e : h.next store.isCancelled = some (d, after, n)) : h.Yields store d after := by
  obtain ⟨⟨d', rest, n'⟩, hd, he⟩ := Option.map_eq_some_iff.1 e
  cases he
  obtain ⟨hperm, hcalled⟩ := yields_drive hd
  exact ⟨hperm, rfl, hcalled⟩

end Heading

namespace Stage

/-! ### Loads that a stage holds -/

section Awaits

variable {w : Stage} {i : Nat} {e : Errand}

/-- A heading just set stands at the next index. -/
theorem getElem?_hang_cases {r : Heading × List Event × Store} {k : Heading}
    (here : (w.hang r).headings[i]? = some k) :
    w.headings[i]? = some k ∨ i = w.headings.length ∧ k = r.1 := by
  have hi : i < w.headings.length + 1 := by
    obtain ⟨hlt, -⟩ := List.getElem?_eq_some_iff.1 here
    rwa [hang, List.length_append] at hlt
  rcases Nat.lt_succ_iff_lt_or_eq.1 hi with hlt | rfl
  · rw [hang, List.getElem?_append_left hlt] at here
    exact .inl here
  · rw [hang, List.getElem?_concat_length] at here
    exact .inr ⟨rfl, (Option.some.inj here).symm⟩

/-- Only its loads are new. -/
theorem awaits_hang {r : Heading × List Event × Store} (held : (w.hang r).Awaits i e) :
    w.Awaits i e ∨ i = w.headings.length ∧ e ∈ r.1.loads.map (·.errand) := by
  rcases held with ⟨h, here, he⟩ | taken
  · rcases getElem?_hang_cases here with old | ⟨rfl, rfl⟩
    · exact .inl (.inl ⟨h, old, he⟩)
    · exact .inr ⟨rfl, he⟩
  · exact .inl (.inr taken)

/-- A heading of a stage is the one that was put there, or one from before. -/
theorem getElem?_set_cases {headings : List Heading} {j : Nat} {h k : Heading}
    (here : (headings.set j h)[i]? = some k) : i = j ∧ k = h ∨ headings[i]? = some k := by
  rw [List.getElem?_set] at here
  split at here
  · next hij =>
    split at here
    · exact .inl ⟨hij.symm, (Option.some.inj here).symm⟩
    · cases here
  · exact .inr here

/-- Taking a load of a heading moves it from the one place to the other. -/
theorem awaits_take {j : Nat} {h after : Heading} {d : Delivery}
    (here : w.headings[j]? = some h) (yields : h.Yields w.store d after)
    (held : Awaits ⟨w.store, w.headings.set j after, (j, d) :: w.taken⟩ i e) : w.Awaits i e := by
  rcases held with ⟨k, hk, he⟩ | ⟨d', hmem, rfl⟩
  · rcases getElem?_set_cases hk with ⟨rfl, rfl⟩ | hk
    · exact .inl ⟨h, here, yields.queue.subset (List.mem_cons_of_mem _ he)⟩
    · exact .inl ⟨k, hk, he⟩
  · rcases List.mem_cons.1 hmem with heq | hmem
    · cases heq
      exact .inl ⟨h, here, yields.queue.subset List.mem_cons_self⟩
    · exact .inr ⟨d', hmem, rfl⟩

/-- Applying a load drops it from those that were taken. -/
theorem awaits_put {j k : Nat} {h : Heading} {d : Delivery} {taken : List (Nat × Delivery)}
    (own : w.taken.Perm ((k, d) :: taken)) (here : w.headings[j]? = some h)
    (held : (w.put j (h.apply d w.store) taken).Awaits i e) : w.Awaits i e := by
  rcases held with ⟨l, hl, he⟩ | ⟨d', hmem, rfl⟩
  · rcases getElem?_set_cases hl with ⟨rfl, rfl⟩ | hl
    · rw [Heading.apply_heading] at he
      exact .inl ⟨h, here, he⟩
    · exact .inl ⟨l, hl, he⟩
  · exact .inr ⟨d', own.symm.subset (List.mem_cons_of_mem _ hmem), rfl⟩

end Awaits

/-! ### What every stage keeps to -/

/-- The account of the store agrees with the loads that are held. -/
structure Sound (w : Stage) : Prop where
  ledger : w.store.ledger.Sound
  issued : ∀ i e, w.Awaits i e → w.store.ledger.Issued e
  /-- A load that came without an answer was called off. -/
  called_off : ∀ p ∈ w.taken, p.2.result = none → p.2.errand.load ∈ w.store.cancelled
  /-- A load that was taken is one of a heading. -/
  taken_lt : ∀ p ∈ w.taken, p.1 < w.headings.length

/-- An empty stage holds nothing that was not issued. -/
theorem Sound.start : start.Sound := by
  refine ⟨⟨List.forall_mem_nil _, List.forall_mem_nil _⟩, ?_, List.forall_mem_nil _,
    List.forall_mem_nil _⟩
  rintro i e (⟨h, here, -⟩ | ⟨d, taken, -⟩)
  · cases here
  · cases taken

variable {w : Stage}

/-- A clearing calls off all loads that are in flight. -/
theorem Sound.cleared (sound : w.Sound) : w.cleared.Sound where
  ledger := sound.ledger.clear
  issued i e held := (sound.issued i e held).clear
  called_off p hp hnone := List.mem_append_right _ (sound.called_off p hp hnone)
  taken_lt := sound.taken_lt

/-- The loads of a heading just set are of the store's generation, and issued. -/
theorem Sound.fresh (sound : w.Sound) {o : Heading.Options} {loader : Loader}
    {leaves : List Leaf} {e : Errand}
    (own : e ∈ (Heading.ofLeaves o loader leaves w.store).1.loads.map (·.errand)) :
    e.generation = w.store.generation ∧
      (Heading.ofLeaves o loader leaves w.store).2.2.ledger.Issued e := by
  rw [Heading.errands_ofLeaves] at own
  obtain ⟨⟨r, n⟩, hmem, rfl⟩ := List.mem_map.1 own
  obtain ⟨hle, hlt, -⟩ := List.mem_zipIdx hmem
  rw [Heading.ledger_ofLeaves]
  exact ⟨rfl, sound.ledger.issued hle hlt⟩

/-- Only a heading that is there holds a load. -/
theorem Sound.awaits_lt (sound : w.Sound) {i : Nat} {e : Errand} (held : w.Awaits i e) :
    i < w.headings.length := by
  rcases held with ⟨h, here, -⟩ | ⟨d, hd, -⟩
  · exact (List.getElem?_eq_some_iff.1 here).1
  · exact sound.taken_lt (i, d) hd

/-- What a heading just set holds is of the generation in which it was set. -/
theorem Sound.generation_hang (sound : w.Sound) {o : Heading.Options} {loader : Loader}
    {leaves : List Leaf} {e : Errand}
    (held : (w.hang (Heading.ofLeaves o loader leaves w.store)).Awaits w.headings.length e) :
    e.generation = (w.hang (Heading.ofLeaves o loader leaves w.store)).store.generation := by
  rcases awaits_hang held with old | ⟨-, own⟩
  · exact absurd (sound.awaits_lt old) (Nat.lt_irrefl _)
  · exact (sound.fresh own).1.trans
      (congrArg Store.Ledger.generation (Heading.ledger_ofLeaves o loader leaves w.store)).symm

/-- A heading that is set holds loads that were just issued. -/
theorem Sound.hang (sound : w.Sound) (o : Heading.Options) (loader : Loader)
    (leaves : List Leaf) : (w.hang (Heading.ofLeaves o loader leaves w.store)).Sound := by
  have hledger := Heading.ledger_ofLeaves o loader leaves w.store
  refine ⟨?_, ?_, ?_, ?_⟩
  · exact hledger ▸ sound.ledger.enter _
  · intro i e held
    rcases awaits_hang held with old | ⟨-, own⟩
    · exact hledger ▸ (sound.issued i e old).enter _
    · exact (sound.fresh own).2
  · intro p hp hnone
    have hcancelled : (Heading.ofLeaves o loader leaves w.store).2.2.cancelled =
        w.store.cancelled := congrArg Store.Ledger.cancelled hledger
    exact hcancelled ▸ sound.called_off p hp hnone
  · intro p hp
    rw [Stage.hang, List.length_append]
    exact Nat.lt_add_right _ (sound.taken_lt p hp)

/-- A load that is taken is still waited for. -/
theorem Sound.take (sound : w.Sound) {j : Nat} {h after : Heading} {d : Delivery}
    (here : w.headings[j]? = some h) (yields : h.Yields w.store d after) :
    Sound ⟨w.store, w.headings.set j after, (j, d) :: w.taken⟩ := by
  refine ⟨sound.ledger, fun i e held => sound.issued i e (awaits_take here yields held), ?_, ?_⟩
  · intro p hp hnone
    rcases List.mem_cons.1 hp with rfl | hp
    · exact yields.called_off hnone
    · exact sound.called_off p hp hnone
  · intro p hp
    rw [List.length_set]
    rcases List.mem_cons.1 hp with rfl | hp
    · exact (List.getElem?_eq_some_iff.1 here).1
    · exact sound.taken_lt p hp

/-- A load that is applied is waited for no more. -/
theorem Sound.put (sound : w.Sound) {j k : Nat} {h : Heading} {d : Delivery}
    {taken : List (Nat × Delivery)} (own : w.taken.Perm ((k, d) :: taken))
    (here : w.headings[j]? = some h) : (w.put j (h.apply d w.store) taken).Sound := by
  have hledger := Heading.ledger_apply d h w.store
  have hsubset : ∀ p ∈ taken, p ∈ w.taken := fun p hp =>
    own.symm.subset (List.mem_cons_of_mem _ hp)
  refine ⟨?_, ?_, ?_, ?_⟩
  · exact hledger ▸ sound.ledger.finish _
  · exact fun i e held => hledger ▸ (sound.issued i e (awaits_put own here held)).finish _
  · intro p hp hnone
    have hcancelled : (h.apply d w.store).2.2.2.cancelled = w.store.cancelled :=
      congrArg Store.Ledger.cancelled hledger
    exact hcancelled ▸ sound.called_off p (hsubset p hp) hnone
  · intro p hp
    rw [Stage.put, List.length_set]
    exact sound.taken_lt p (hsubset p hp)

end Stage

open Stage

section Step

variable {w w' : Stage} {a : Act}

/-- **One act keeps a stage sound.** -/
theorem Step.sound (step : Step w a w') (sound : w.Sound) : w'.Sound := by
  cases step with
  | set o loader leaves => exact sound.hang o loader leaves
  | compile o loader markup => exact sound.cleared.hang o loader _
  | clear => exact sound.cleared
  | take here yields => exact sound.take here yields
  | apply own here => exact sound.put own here

/-- No heading goes away. -/
theorem Step.length_le (step : Step w a w') : w.headings.length ≤ w'.headings.length := by
  cases step with
  | set | compile =>
    rw [hang, List.length_append]
    exact Nat.le_add_right _ _
  | clear => exact Nat.le_refl _
  | take | apply => exact Nat.le_of_eq List.length_set.symm

/-- An act that sets a heading makes the stage longer. -/
theorem Step.length_lt (step : Step w a w') (sets : a.sets) :
    w.headings.length < w'.headings.length := by
  cases step with
  | set | compile =>
    rw [hang, List.length_append]
    exact Nat.lt_succ_self _
  | clear | take | apply => cases sets

/-- No act gives loads to a heading that was there before. -/
theorem Step.awaits (step : Step w a w') {i : Nat} (old : i < w.headings.length) {e : Errand}
    (held : w'.Awaits i e) : w.Awaits i e := by
  cases step with
  | set o loader leaves =>
    rcases awaits_hang held with held | ⟨rfl, -⟩
    · exact held
    · exact absurd old (Nat.lt_irrefl _)
  | compile o loader markup =>
    rcases awaits_hang (w := w.cleared) held with held | ⟨rfl, -⟩
    · exact held
    · exact absurd old (Nat.lt_irrefl _)
  | clear => exact held
  | take here yields => exact awaits_take here yields held
  | apply own here => exact awaits_put own here held

/-- Of a heading that an act sets, no load was taken yet. -/
theorem Step.taken_lt (step : Step w a w') (sets : a.sets) (sound : w.Sound) :
    ∀ p ∈ w'.taken, p.1 < w.headings.length := by
  cases step with
  | set | compile => exact sound.taken_lt
  | clear | take | apply => cases sets

/-- The loads of a heading that an act sets are of the generation it leaves. -/
theorem Step.fresh (step : Step w a w') (sets : a.sets) (sound : w.Sound) {e : Errand}
    (held : w'.Awaits w.headings.length e) : e.generation = w'.store.generation := by
  cases step with
  | set o loader leaves => exact sound.generation_hang held
  | compile o loader markup => exact sound.cleared.generation_hang held
  | clear | take | apply => cases sets

/-- The generation counts the clearings. -/
theorem Step.generation (step : Step w a w') :
    w'.store.generation = w.store.generation + if a.clears then 1 else 0 := by
  cases step with
  | set o loader leaves =>
    exact congrArg Store.Ledger.generation (Heading.ledger_ofLeaves o loader leaves w.store)
  | compile o loader markup =>
    exact congrArg Store.Ledger.generation (Heading.ledger_ofLeaves o loader _ w.cleared.store)
  | clear => rfl
  | take => rfl
  | apply own here => exact congrArg Store.Ledger.generation (Heading.ledger_apply _ _ w.store)

end Step

section Run

variable {w w' : Stage} {acts : List Act}

/-- **A run keeps a stage sound.** -/
theorem Run.sound (run : Run w acts w') (sound : w.Sound) : w'.Sound := by
  induction run with
  | nil => exact sound
  | cons step _ ih => exact ih (step.sound sound)

/-- No heading is ever taken off a stage. -/
theorem Run.length_le (run : Run w acts w') : w.headings.length ≤ w'.headings.length := by
  induction run with
  | nil => exact Nat.le_refl _
  | cons step _ ih => exact Nat.le_trans step.length_le ih

/-- What a heading holds after a run it held before. -/
theorem Run.awaits (run : Run w acts w') {i : Nat} (old : i < w.headings.length) {e : Errand}
    (held : w'.Awaits i e) : w.Awaits i e := by
  induction run with
  | nil => exact held
  | cons step _ ih => exact step.awaits old (ih (Nat.lt_of_lt_of_le old step.length_le) held)

/-- **The generation of the store** counts the clearings. -/
theorem Run.generation (run : Run w acts w') :
    w'.store.generation = w.store.generation + acts.countP Act.clears := by
  induction run with
  | nil => rfl
  | cons step _ ih =>
    rw [ih, step.generation, List.countP_cons, Nat.add_right_comm, Nat.add_assoc]

/-- Runs in a row are a run. -/
theorem Run.append {w₁ : Stage} {more : List Act} (run : Run w acts w₁) (rest : Run w₁ more w') :
    Run w (acts ++ more) w' := by
  induction run with
  | nil => exact rest
  | cons step _ ih => exact .cons step (ih rest)

end Run

/-! ### Settling -/

section Settle

variable {w : Stage} {i : Nat} {h after : Heading} {d : Delivery} {n : Nat}

/-- The stage after the next load of a heading was taken and applied to it. -/
def Stage.landed (w : Stage) (i : Nat) (d : Delivery) (after : Heading) : Stage :=
  { w with
    store := (after.apply d w.store).2.2.2
    headings := w.headings.set i (after.apply d w.store).2.2.1 }

/-- The heading whose load landed is the one that it was applied to. -/
theorem Stage.getElem?_headings_landed (here : w.headings[i]? = some h) (d : Delivery)
    (after : Heading) : (w.landed i d after).headings[i]? = some (after.apply d w.store).2.2.1 :=
  List.getElem?_set_self (List.getElem?_eq_some_iff.1 here).1

/-- No load is called off by one that lands. -/
theorem Stage.isCancelled_landed (w : Stage) (i : Nat) (d : Delivery) (after : Heading) :
    (w.landed i d after).store.isCancelled = w.store.isCancelled := by
  have hcancelled : (w.landed i d after).store.cancelled = w.store.cancelled :=
    congrArg Store.Ledger.cancelled (Heading.ledger_apply d after w.store)
  funext load
  rw [Store.isCancelled, Store.isCancelled, hcancelled]

/-- Taking the next load of a heading and applying it are two acts. -/
theorem Run.landed (here : w.headings[i]? = some h)
    (next : h.next w.store.isCancelled = some (d, after, n)) :
    Run w [.take i d, .apply i d i] (w.landed i d after) := by
  have hlt : i < w.headings.length := (List.getElem?_eq_some_iff.1 here).1
  have hset : (w.headings.set i after)[i]? = some after := List.getElem?_set_self hlt
  have happly := Step.apply (w := ⟨w.store, w.headings.set i after, (i, d) :: w.taken⟩)
    (.refl _) hset
  rw [put, List.set_set] at happly
  exact .cons (.take here (Heading.yields_next next)) (.cons happly .nil)

/-- The two acts clear nothing, whatever comes after them. -/
theorem not_clears_landed {acts : List Act} (quiet : ∀ a ∈ acts, ¬ a.clears) :
    ∀ a ∈ [Act.take i d, .apply i d i] ++ acts, ¬ a.clears := by
  intro a ha
  rcases List.mem_append.1 ha with ha | ha
  · rcases List.mem_pair.1 ha with rfl | rfl
    · exact Bool.false_ne_true
    · exact Bool.false_ne_true
  · exact quiet a ha

/-- Nothing happens where a heading is put in its own place. -/
theorem Run.stay (here : w.headings[i]? = some h) :
    Run w [] { w with headings := w.headings.set i h } := by
  obtain ⟨hlt, rfl⟩ := List.getElem?_eq_some_iff.1 here
  rw [List.set_getElem_self]
  exact .nil

/-- **Settling a heading is a run** of takes and applications. -/
theorem exists_run_settleNext (here : w.headings[i]? = some h) (n : Nat) :
    ∃ acts, (∀ a ∈ acts, ¬ a.clears) ∧ Run w acts { w with
      store := (h.settleNext w.store.isCancelled n w.store).store
      headings := w.headings.set i (h.settleNext w.store.isCancelled n w.store).heading } := by
  induction n generalizing w h with
  | zero => exact ⟨[], List.forall_mem_nil _, .stay here⟩
  | succ n ih =>
    rcases hnext : h.next w.store.isCancelled with _ | ⟨d, after, calls⟩
    · rw [Heading.settleNext_of_none hnext]
      exact ⟨[], List.forall_mem_nil _, .stay here⟩
    · obtain ⟨acts, quiet, run⟩ := ih (getElem?_headings_landed here d after)
      rw [isCancelled_landed] at run
      rw [Heading.settleNext_of_some hnext]
      refine ⟨_, not_clears_landed quiet, (Run.landed here hnext).append ?_⟩
      simpa only [landed, List.set_set] using run

/-- Each outcome of settling a heading is that of an application on the way. -/
theorem exists_run_of_mem_outcomes (here : w.headings[i]? = some h) {x : Heading.Outcome}
    (hx : x ∈ (h.settleNext w.store.isCancelled n w.store).outcomes) :
    ∃ acts w' h' d, (∀ a ∈ acts, ¬ a.clears) ∧ Run w acts w' ∧ w'.headings[i]? = some h' ∧
      (i, d) ∈ w'.taken ∧ x = (h'.apply d w'.store).1 := by
  induction n generalizing w h with
  | zero => cases hx
  | succ n ih =>
    rcases hnext : h.next w.store.isCancelled with _ | ⟨d, after, calls⟩
    · rw [Heading.settleNext_of_none hnext] at hx
      cases hx
    · rw [Heading.settleNext_of_some hnext] at hx
      rcases List.mem_cons.1 hx with rfl | hx
      · refine ⟨[.take i d], _, after, d, ?_, .cons (.take here (Heading.yields_next hnext)) .nil,
          List.getElem?_set_self (List.getElem?_eq_some_iff.1 here).1, List.mem_cons_self, rfl⟩
        exact List.forall_mem_singleton.2 Bool.false_ne_true
      · rw [← isCancelled_landed w i d after] at hx
        obtain ⟨acts, w', h', d', quiet, run, rest⟩ := ih (getElem?_headings_landed here d after) hx
        exact ⟨_, w', h', d', not_clears_landed quiet, (Run.landed here hnext).append run, rest⟩

end Settle

end Marquee
