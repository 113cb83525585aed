import Marquee.Proofs.Heading.Apply
import Marquee.Proofs.Heading.Requests

/-!
# Applying Loads in Any Order

Two loads with different addresses and different places do not get in each other's way: what
comes of one is the same before and after the other, and heading and store are the same in
the end, but for the order in which two pictures went onto the shelf. So loads that are
pairwise apart can be applied in any order.

Settling a heading is one such order. Which one depends on how long the answers take, and on
nothing else.

## Main statements

* `swap_swap`, `apply_apply` — two loads that are apart can change places;
* `outcomes_applyAll` — what comes of a load does not depend on those applied before it;
* `applyAll_perm` — any two orders lead to the same heading and store;
* `settleNext_eq_applyAll` — settling applies the loads in some order.
-/

namespace Marquee

open Fetch Scene Store

/-! ### Shelves and stores up to order -/

/-- Two shelves with the same things on them, used as often, that were filled in another
order at most. -/
structure Store.Shelf.Rearranged {κ α : Type} [DecidableEq κ] (s t : Shelf κ α) : Prop where
  entries : s.entries.Perm t.entries
  get? : ∀ k, s.get? k = t.get? k
  usage : s.usage = t.usage

namespace Store.Shelf.Rearranged

variable {κ α : Type} [DecidableEq κ] {s t u : Shelf κ α}

/-- A shelf is a rearrangement of itself. -/
theorem refl (s : Shelf κ α) : s.Rearranged s := ⟨.refl _, fun _ => rfl, rfl⟩

/-- Rearranging twice is rearranging. -/
theorem trans (first : s.Rearranged t) (second : t.Rearranged u) : s.Rearranged u :=
  ⟨first.entries.trans second.entries, fun k => (first.get? k).trans (second.get? k),
    first.usage.trans second.usage⟩

/-- Storing the same thing in both keeps them alike. -/
theorem put (same : s.Rearranged t) (k : κ) (a : α) : (s.put k a).Rearranged (t.put k a) where
  entries := (same.entries.filter _).cons _
  get? l := by rw [get?_put, get?_put, same.get? l]
  usage := by rw [Shelf.put, Shelf.put, same.usage]

end Store.Shelf.Rearranged

/-- Things that go under different keys can be put there in either order. -/
theorem Store.Shelf.put_put {κ α : Type} [DecidableEq κ] (s : Shelf κ α) {k l : κ} (hne : k ≠ l)
    (a b : α) : ((s.put k a).put l b).Rearranged ((s.put l b).put k a) where
  entries := by
    have hfilter : (s.entries.filter (·.1 != k)).filter (·.1 != l) =
        (s.entries.filter (·.1 != l)).filter (·.1 != k) := by
      rw [List.filter_filter, List.filter_filter]
      exact List.filter_congr fun _ _ => Bool.and_comm _ _
    have hk : ((k, a).1 != l) = true := bne_iff_ne.2 hne
    have hl : ((l, b).1 != k) = true := bne_iff_ne.2 hne.symm
    simp only [Shelf.put, List.filter_cons, hk, hl, if_true, hfilter]
    exact .swap _ _ _
  get? m := by
    simp only [get?_put]
    by_cases hm : m = k
    · have hml : m ≠ l := fun h => hne (hm.symm.trans h)
      rw [if_neg hml, if_pos hm, if_pos hm]
    · rw [if_neg hm, if_neg hm]
  usage := rfl

/-- Two stores that are the same but for the order of their textures. -/
structure Store.Rearranged (s t : Store) : Prop where
  geometries : s.geometries = t.geometries
  materials : s.materials = t.materials
  textures : s.textures.Rearranged t.textures
  ledger : s.ledger = t.ledger

namespace Store.Rearranged

variable {s t u : Store}

/-- A store is a rearrangement of itself. -/
theorem refl (s : Store) : s.Rearranged s := ⟨rfl, rfl, .refl _, rfl⟩

/-- Rearranging a store twice is rearranging it. -/
theorem trans (first : s.Rearranged t) (second : t.Rearranged u) : s.Rearranged u :=
  ⟨first.geometries.trans second.geometries, first.materials.trans second.materials,
    first.textures.trans second.textures, first.ledger.trans second.ledger⟩

/-- Finishing the same load in both stores keeps them alike. -/
theorem finish (same : s.Rearranged t) (load : Nat) :
    (s.finish load).Rearranged (t.finish load) :=
  ⟨same.geometries, same.materials, same.textures, by
    rw [ledger_finish, ledger_finish, same.ledger]⟩

/-- Storing the same texture in both stores keeps them alike. -/
theorem insertTexture (same : s.Rearranged t) (url : String) (p : Texture) :
    (s.insertTexture url p).Rearranged (t.insertTexture url p) :=
  ⟨same.geometries, same.materials, same.textures.put url p, same.ledger⟩

/-- Stores that are alike are of one generation. -/
theorem generation (same : s.Rearranged t) : s.generation = t.generation :=
  congrArg Store.Ledger.generation same.ledger

end Store.Rearranged

/-- It does not matter which of two loads is finished first. -/
theorem Store.finish_finish (s : Store) (m n : Nat) :
    (s.finish m).finish n = (s.finish n).finish m := by
  simp only [Store.finish, List.filter_filter]
  exact congrArg (fun ns => { s with inFlight := ns })
    (List.filter_congr fun _ _ => Bool.and_comm _ _)

/-! ### Swapping in two sets of places -/

attribute [ext] Scene.Group

namespace Heading

/-- A node with a picture in it, if it is a group; any other as it is. -/
def Stack.fillIn (stack : Stack) (t : Texture) (n : Node) : Node :=
  match n.group? with
  | some g => (stack.fill t g).toNode
  | none => n

/-- A picture takes the place of any other. -/
theorem Stack.fillIn_fillIn (stack : Stack) (t u : Texture) (n : Node) :
    stack.fillIn t (stack.fillIn u n) = stack.fillIn t n := by
  cases n <;> rfl

section Children

variable {stack : Stack} {t : Texture} {row g : Group} {slot : Nat}

/-- A child that is no group stays as it is. -/
theorem map_fillIn_of_none (hnone : row.child? slot = none) :
    row.children[slot]?.map (stack.fillIn t) = row.children[slot]? := by
  rw [Group.child?] at hnone
  rcases hc : row.children[slot]? with _ | c
  · rfl
  · rw [hc] at hnone
    have hgroup : c.group? = none := hnone
    rw [Option.map_some, Stack.fillIn, hgroup]

/-- A child that is a group is filled, and the others stay as they are. -/
theorem getElem?_setChild_fill (hg : row.child? slot = some g) (i : Nat) :
    (row.setChild slot (stack.fill t g).toNode).children[i]? =
      if i = slot then row.children[i]?.map (stack.fillIn t) else row.children[i]? := by
  obtain ⟨c, hc, hgroup⟩ := Option.bind_eq_some_iff.1 hg
  rw [Group.setChild, List.getElem?_set]
  by_cases h : slot = i
  · subst h
    have hlt : slot < row.children.length := (List.getElem?_eq_some_iff.1 hc).1
    rw [if_pos rfl, if_pos hlt, if_pos rfl, hc, Option.map_some, Stack.fillIn, hgroup]
  · rw [if_neg h, if_neg (Ne.symm h)]

end Children

/-- What swapping does to the children of a row, groups or not. -/
theorem getElem?_children_swap (stack : Stack) (t : Texture) (slots : List Nat) (row : Group)
    (i : Nat) : (swap stack t slots row).1.children[i]? =
      if i ∈ slots then row.children[i]?.map (stack.fillIn t) else row.children[i]? := by
  induction slots generalizing row with
  | nil => rfl
  | cons slot slots ih =>
    rcases hg : row.child? slot with _ | g
    · rw [swap_cons_none hg, ih]
      by_cases h : i = slot
      · subst h
        rw [map_fillIn_of_none hg, ite_self, ite_self]
      · simp [h]
    · rw [swap_cons_some hg, ih, getElem?_setChild_fill hg]
      by_cases h : i = slot
      · subst h
        simp [Option.map_map, Function.comp_def, Stack.fillIn_fillIn]
      · simp [h]

/-- **Disjoint places** can be swapped in either order. -/
theorem swap_swap (stack : Stack) (t u : Texture) {xs ys : List Nat} (disjoint : ∀ i ∈ xs, i ∉ ys)
    (row : Group) : (swap stack u ys (swap stack t xs row).1).1 =
      (swap stack t xs (swap stack u ys row).1).1 := by
  obtain ⟨hname, htransform, -⟩ := swap_row stack u ys (swap stack t xs row).1
  obtain ⟨hname₁, htransform₁, -⟩ := swap_row stack t xs row
  obtain ⟨hname', htransform', -⟩ := swap_row stack t xs (swap stack u ys row).1
  obtain ⟨hname₂, htransform₂, -⟩ := swap_row stack u ys row
  refine Scene.Group.ext ?_ ?_ (List.ext_getElem? fun i => ?_)
  · rw [hname, hname₁, hname', hname₂]
  · rw [htransform, htransform₁, htransform', htransform₂]
  · rw [getElem?_children_swap, getElem?_children_swap, getElem?_children_swap,
      getElem?_children_swap]
    by_cases hx : i ∈ xs
    · rw [if_neg (disjoint i hx), if_pos hx, if_pos hx, if_neg (disjoint i hx)]
    · rw [if_neg hx, if_neg hx]

/-- A place keeps its group while others are swapped, so as many are counted. -/
theorem isSome_child?_swap (stack : Stack) (t : Texture) (slots : List Nat) (row : Group) (i : Nat) :
    ((swap stack t slots row).1.child? i).isSome = (row.child? i).isSome := by
  rw [child?_swap]
  split
  · exact Option.isSome_map
  · rfl

/-- How many places are filled depends on where there are groups. -/
theorem swap_snd_congr {stack : Stack} {t : Texture} {slots : List Nat} {row row' : Group}
    (places : ∀ i, (row.child? i).isSome = (row'.child? i).isSome) :
    (swap stack t slots row).2 = (swap stack t slots row').2 := by
  induction slots generalizing row row' with
  | nil => rfl
  | cons slot slots ih =>
    have hslot := places slot
    rcases hg : row.child? slot with _ | g
    · rw [hg, eq_comm, Option.isSome_none, Option.isSome_eq_false_iff, Option.isNone_iff_eq_none]
        at hslot
      rw [swap_cons_none hg, swap_cons_none hslot]
      exact ih places
    · rw [hg, eq_comm] at hslot
      obtain ⟨g', hg'⟩ := Option.isSome_iff_exists.1 hslot
      rw [swap_cons_some hg, swap_cons_some hg']
      refine congrArg (· + 1) (ih fun i => ?_)
      rw [child?_setChild (hg ▸ rfl), child?_setChild (hg' ▸ rfl)]
      split
      · rfl
      · exact places i

/-! ### Two loads -/

/-- The picture that a load has for a store, if it is not late and did not fail. -/
def picture? (d : Delivery) (s : Store) : Option Texture :=
  if d.errand.generation = s.generation then d.result.bind Except.toOption else none

section Apply

variable {d e : Delivery} {h g : Heading} {s t : Store}

/-- A load without a picture is done, and that is all. -/
theorem apply_of_picture?_none (hnone : picture? d s = none) :
    (h.apply d s).2.2 = (h, s.finish d.errand.load) := by
  rcases apply_cases d h s with ⟨-, -, heq⟩ | ⟨-, -, heq⟩ | ⟨p, htime, hresult, -, -⟩
  · exact heq
  · exact heq
  · rw [picture?, if_pos (not_late_iff.1 htime).1, hresult] at hnone
    cases hnone

/-- A load with a picture puts it into its places and on the shelf. -/
theorem apply_of_picture?_some {p : Texture} (hsome : picture? d s = some p) :
    (h.apply d s).2.2 = ({ h with row := (swap h.stack p d.errand.request.slots h.row).1 },
      (s.finish d.errand.load).insertTexture d.errand.request.url p) := by
  rw [picture?] at hsome
  split at hsome
  · next hgen =>
    rcases hresult : d.result with _ | _ | q
    · rw [hresult] at hsome
      cases hsome
    · rw [hresult] at hsome
      cases hsome
    · rw [hresult] at hsome
      cases hsome
      rw [apply_of_ok hgen hresult]
  · cases hsome

/-- Applying a load begins no generation. -/
theorem generation_apply : (h.apply d s).2.2.2.generation = s.generation :=
  congrArg Store.Ledger.generation (ledger_apply d h s)

/-- What a load brings depends on the generation of the store only. -/
theorem picture?_congr (hgen : s.generation = t.generation) : picture? d s = picture? d t := by
  rw [picture?, picture?, hgen]

/-- What a load does to a heading depends on the generation of the store alone, and two
stores that were rearranged stay so. -/
theorem apply_congr (same : s.Rearranged t) :
    (h.apply d s).2.2.1 = (h.apply d t).2.2.1 ∧
      (h.apply d s).2.2.2.Rearranged (h.apply d t).2.2.2 := by
  have hpicture := picture?_congr (d := d) same.generation
  rcases hp : picture? d s with _ | p
  · rw [apply_of_picture?_none hp, apply_of_picture?_none (hpicture.symm.trans hp)]
    exact ⟨rfl, same.finish _⟩
  · rw [apply_of_picture?_some hp, apply_of_picture?_some (hpicture.symm.trans hp)]
    exact ⟨rfl, (same.finish _).insertTexture _ _⟩

/-- **Two loads that are apart** can change places. -/
theorem apply_apply (apart : d.errand.Apart e.errand) :
    ((h.apply d s).2.2.1.apply e (h.apply d s).2.2.2).2.2.1 =
        ((h.apply e s).2.2.1.apply d (h.apply e s).2.2.2).2.2.1 ∧
      ((h.apply d s).2.2.1.apply e (h.apply d s).2.2.2).2.2.2.Rearranged
        ((h.apply e s).2.2.1.apply d (h.apply e s).2.2.2).2.2.2 := by
  have he : picture? e (h.apply d s).2.2.2 = picture? e s := picture?_congr generation_apply
  have hd : picture? d (h.apply e s).2.2.2 = picture? d s := picture?_congr generation_apply
  rcases hdp : picture? d s with _ | p <;> rcases hep : picture? e s with _ | q
  · rw [apply_of_picture?_none (he.trans hep), apply_of_picture?_none (hd.trans hdp),
      apply_of_picture?_none hdp, apply_of_picture?_none hep, Store.finish_finish]
    exact ⟨rfl, .refl _⟩
  · rw [apply_of_picture?_some (he.trans hep), apply_of_picture?_none (hd.trans hdp),
      apply_of_picture?_none hdp, apply_of_picture?_some hep, Store.finish_finish]
    exact ⟨rfl, .refl _⟩
  · rw [apply_of_picture?_none (he.trans hep), apply_of_picture?_some (hd.trans hdp),
      apply_of_picture?_some hdp, apply_of_picture?_none hep]
    refine ⟨rfl, ?_⟩
    rw [Store.finish_finish s e.errand.load]
    exact .refl _
  · rw [apply_of_picture?_some (he.trans hep), apply_of_picture?_some (hd.trans hdp),
      apply_of_picture?_some hdp, apply_of_picture?_some hep]
    refine ⟨?_, ?_⟩
    · simp only [swap_swap h.stack p q apart.slots]
    · refine ⟨rfl, rfl, s.textures.put_put apart.url p q, ?_⟩
      exact (congrArg Store.ledger (s.finish_finish d.errand.load e.errand.load) :)

/-- What becomes of a load does not depend on what is in the places, only on which of them
are groups. -/
theorem apply_fst_congr (hgen : s.generation = t.generation) (stack : h.stack = g.stack)
    (places : ∀ i, (h.row.child? i).isSome = (g.row.child? i).isSome) :
    (h.apply d s).1 = (g.apply d t).1 := by
  by_cases late : Late d s
  · have late' : Late d t := late.imp_left fun hne => hgen ▸ hne
    rw [apply_of_late late, apply_of_late late']
  · obtain ⟨hd, x | p, hresult⟩ := not_late_iff.1 late
    · rw [apply_of_error hd hresult, apply_of_error (hd.trans hgen) hresult]
    · rw [apply_of_ok hd hresult, apply_of_ok (hd.trans hgen) hresult, stack,
        swap_snd_congr places]

/-- A load fills groups and leaves all other places as they are. -/
theorem isSome_child?_apply (i : Nat) :
    ((h.apply d s).2.2.1.row.child? i).isSome = (h.row.child? i).isSome := by
  rcases hp : picture? d s with _ | p
  · rw [apply_of_picture?_none hp]
  · rw [apply_of_picture?_some hp]
    exact isSome_child?_swap _ _ _ _ _

/-- The loads that are still pending have no part in an application. -/
theorem apply_loads (loads : List Load) :
    Heading.apply d { h with loads } s =
      ((h.apply d s).1, (h.apply d s).2.1, { (h.apply d s).2.2.1 with loads },
        (h.apply d s).2.2.2) := by
  by_cases late : Late d s
  · rw [apply_of_late late, apply_of_late late]
  · obtain ⟨hd, x | p, hresult⟩ := not_late_iff.1 late
    · rw [apply_of_error hd hresult, apply_of_error hd hresult]
    · rw [apply_of_ok hd hresult, apply_of_ok hd hresult]

end Apply

/-! ### Any number of loads -/

/-- Applies loads that are over, one after the other: what came of each, and the heading and
the store in the end. -/
def applyAll : List Delivery → Heading → Store → List Outcome × Heading × Store
  | [], h, s => ([], h, s)
  | d :: ds, h, s =>
    let (outcome, _, h, s) := h.apply d s
    let (outcomes, h, s) := applyAll ds h s
    (outcome :: outcomes, h, s)

section ApplyAll

variable {d : Delivery} {ds es : List Delivery} {h : Heading} {s t : Store}

/-- The first load is applied first. -/
theorem applyAll_cons : applyAll (d :: ds) h s =
    ((h.apply d s).1 :: (applyAll ds (h.apply d s).2.2.1 (h.apply d s).2.2.2).1,
      (applyAll ds (h.apply d s).2.2.1 (h.apply d s).2.2.2).2) := rfl

/-- **What becomes of each load** is what would become of it at first. -/
theorem outcomes_applyAll (ds : List Delivery) (h : Heading) (s : Store) :
    (applyAll ds h s).1 = ds.map fun d => (h.apply d s).1 := by
  induction ds generalizing h s with
  | nil => rfl
  | cons d ds ih =>
    rw [applyAll_cons, List.map_cons, ih]
    refine congrArg (List.cons _) (List.map_congr_left fun e _ => ?_)
    have hstack : (h.apply d s).2.2.1.stack = h.stack := by rw [apply_heading]
    exact apply_fst_congr generation_apply hstack isSome_child?_apply

/-- The loads that were applied are no longer in flight. -/
theorem inFlight_applyAll (ds : List Delivery) (h : Heading) (s : Store) :
    (applyAll ds h s).2.2.inFlight =
      s.inFlight.filter fun n => n ∉ ds.map fun d => d.errand.load := by
  induction ds generalizing h s with
  | nil => exact (List.filter_true _).symm
  | cons d ds ih =>
    have hfinish : (h.apply d s).2.2.2.inFlight = s.inFlight.filter (· != d.errand.load) :=
      congrArg Store.Ledger.inFlight (ledger_apply d h s)
    rw [applyAll_cons, ih, hfinish, List.filter_filter]
    refine List.filter_congr fun n _ => ?_
    rw [Bool.eq_iff_iff, List.map_cons]
    simp [-List.mem_map, not_or, and_comm]

/-- Over stores that are alike, loads make the same heading and leave stores alike. -/
theorem applyAll_congr (same : s.Rearranged t) :
    (applyAll ds h s).2.1 = (applyAll ds h t).2.1 ∧
      (applyAll ds h s).2.2.Rearranged (applyAll ds h t).2.2 := by
  induction ds generalizing h s t with
  | nil => exact ⟨rfl, same⟩
  | cons d ds ih =>
    obtain ⟨hheading, hstore⟩ := apply_congr (d := d) (h := h) same
    rw [applyAll_cons, applyAll_cons, hheading]
    exact ih hstore

/-- **Any two orders** of loads that are apart lead to the same heading and the same store.
Induction on the permutation: two neighbours change places, and what comes after them does
not see which of their pictures went onto the shelf first. -/
theorem applyAll_perm (perm : ds.Perm es) (apart : (ds.map (·.errand)).Pairwise Errand.Apart) :
    (applyAll ds h s).2.1 = (applyAll es h s).2.1 ∧
      (applyAll ds h s).2.2.Rearranged (applyAll es h s).2.2 := by
  induction perm generalizing h s with
  | nil => exact ⟨rfl, .refl _⟩
  | cons d _ ih =>
    rw [applyAll_cons, applyAll_cons]
    exact ih (List.pairwise_cons.1 apart).2
  | swap d e ds =>
    have hapart : e.errand.Apart d.errand :=
      (List.pairwise_cons.1 apart).1 _ List.mem_cons_self
    obtain ⟨hheading, hstore⟩ := apply_apply (h := h) (s := s) hapart
    simp only [applyAll_cons]
    rw [hheading]
    exact applyAll_congr hstore
  | trans first _ ih₁ ih₂ =>
    have apart' := (first.map (·.errand)).pairwise apart fun hsym => hsym.symm
    obtain ⟨hheading₁, hstore₁⟩ := ih₁ (h := h) (s := s) apart
    obtain ⟨hheading₂, hstore₂⟩ := ih₂ (h := h) (s := s) apart'
    exact ⟨hheading₁.trans hheading₂, hstore₁.trans hstore₂⟩

/-- What a heading still waits for does not matter to the loads that are applied. -/
theorem applyAll_loads (loads : List Load) :
    applyAll ds { h with loads } s =
      ((applyAll ds h s).1, { (applyAll ds h s).2.1 with loads }, (applyAll ds h s).2.2) := by
  induction ds generalizing h s with
  | nil => rfl
  | cons d ds ih => rw [applyAll_cons, apply_loads, ih, applyAll_cons]

end ApplyAll

/-! ### Settling -/

/-- A heading whose loads were all taken. -/
def drained (h : Heading) : Heading := { h with loads := [] }

/-- A heading that waits for nothing is drained. -/
theorem drained_of_pending {h : Heading} (done : h.pending = 0) : h.drained = h := by
  rw [drained, ← List.length_eq_zero_iff.1 done]

/-- **Settling** applies the loads of a heading in some order. -/
theorem settleNext_eq_applyAll (cancelled : Nat → Bool) {h : Heading} {n : Nat} {s : Store}
    (enough : h.pending ≤ n) :
    ∃ ds, ds.Perm (h.loads.map (ended cancelled)) ∧
      ((h.settleNext cancelled n s).outcomes, (h.settleNext cancelled n s).heading,
        (h.settleNext cancelled n s).store) = applyAll ds h.drained s := by
  induction n generalizing h s with
  | zero =>
    have done : h.pending = 0 := Nat.le_zero.1 enough
    have hloads : h.loads = [] := List.length_eq_zero_iff.1 done
    refine ⟨[], by rw [hloads]; exact .refl _, ?_⟩
    rw [drained_of_pending done]
    rfl
  | succ n ih =>
    rcases hnext : h.next cancelled with _ | ⟨d, after, calls⟩
    · have done : h.pending = 0 := next_eq_none_iff.1 hnext
      have hloads : h.loads = [] := List.length_eq_zero_iff.1 done
      refine ⟨[], by rw [hloads]; exact .refl _, ?_⟩
      rw [settleNext_of_none hnext, drained_of_pending done]
      rfl
    · have hpending := pending_next hnext
      obtain ⟨⟨d', rest, n'⟩, hdrive, he⟩ := Option.map_eq_some_iff.1 hnext
      cases he
      obtain ⟨ds, hds, hmore⟩ := ih (h := { (h.apply d s).2.2.1 with loads := rest })
        (s := (h.apply d s).2.2.2) (Nat.le_of_succ_le_succ (hpending.symm.trans_le enough))
      refine ⟨d :: ds, (hds.cons d).trans (drive_perm hdrive), ?_⟩
      rw [settleNext_of_some hnext, apply_loads rest, applyAll_cons, drained, apply_loads []]
      dsimp only [drained] at hmore ⊢
      rw [← hmore]

end Heading

end Marquee
