import Marquee.Proofs.Stage.Balance
import Marquee.Proofs.Stage.Transparent

/-!
# The Use of the Shelves

A shelf counts how it is used, and the counts outlive its values. Solids and materials are
made when they are missed and never otherwise, so each miss is a value put there, which is
there still or was released by a clearing. Pictures are put by loads, whoever missed them; the
loads of two passes may put one address twice, and then the first picture is replaced and
not released.

Each leaf makes one look-up on the shelves it needs: a text that is not blank on those of
solids and materials, an emote on that of pictures.

## Main statements

* `Shelf.Stocked.take`, `Shelf.Stocked.clear` — what a shelf of things made on demand keeps to;
* `Shelf.Supplied.look`, `Shelf.Supplied.put`, `Shelf.Supplied.clear` — what one that is filled
  by others keeps to;
* `Step.used`, `Logged.used` — so do the shelves of a store through every act, and every run;
* `usage_balance` — the counts of a store against the log of a program.
-/

namespace Marquee

open Fetch Heading Markup Scene Stage Store

/-! ### One shelf -/

namespace Store.Shelf

variable {κ α : Type} {s : Shelf κ α} {looks puts released : Nat}

/-- A shelf of things made on demand: each look-up was counted, and what was missed was put
there and stands there, unless it was released. -/
structure Stocked (s : Shelf κ α) (looks released : Nat) : Prop where
  looks : s.usage.hits + s.usage.misses = looks
  misses : s.usage.misses = s.usage.inserts
  inserts : s.usage.inserts = s.size + released

/-- A shelf that others fill: each look-up was counted and so was each thing put there, and
no more stand there or were released than were put. -/
structure Supplied (s : Shelf κ α) (looks puts released : Nat) : Prop where
  looks : s.usage.hits + s.usage.misses = looks
  inserts : s.usage.inserts = puts
  size_le : s.size + released ≤ puts

theorem stocked_nil : Stocked ({} : Shelf κ α) 0 0 := ⟨rfl, rfl, rfl⟩

theorem supplied_nil : Supplied ({} : Shelf κ α) 0 0 0 := ⟨rfl, rfl, Nat.le_refl _⟩

/-- What is released counts on. -/
theorem size_clear_add (s : Shelf κ α) (n : Nat) : s.clear.size + (n + s.size) = s.size + n :=
  (Nat.zero_add _).trans (Nat.add_comm _ _)

/-- A shelf that is cleared releases what it stocked. -/
theorem Stocked.clear (stocked : s.Stocked looks released) :
    s.clear.Stocked looks (released + s.size) :=
  ⟨stocked.looks, stocked.misses, stocked.inserts.trans (s.size_clear_add released).symm⟩

/-- A clearing releases what the shelf was supplied with. -/
theorem Supplied.clear (supplied : s.Supplied looks puts released) :
    s.clear.Supplied looks puts (released + s.size) :=
  ⟨supplied.looks, supplied.inserts, (s.size_clear_add released).trans_le supplied.size_le⟩

variable [DecidableEq κ]

/-- What is put under a new key comes on top of the others. -/
theorem size_put_of_get?_eq_none {k : κ} (missing : s.get? k = none) (a : α) :
    (s.put k a).size = s.size + 1 := by
  have hnone : ∀ p ∈ s.entries, p.1 != k := fun p hp =>
    bne_iff_ne.2 (Ne.symm (bne_iff_ne.1 (List.lookup_eq_none_iff.1 missing p hp)))
  rw [size, put, List.filter_eq_self.2 hnone, List.length_cons, size]

/-- Storing makes a shelf longer by one at most. -/
theorem size_put_le (s : Shelf κ α) (k : κ) (a : α) : (s.put k a).size ≤ s.size + 1 := by
  rw [size, put, List.length_cons]
  exact Nat.succ_le_succ (List.length_filter_le _ _)

/-- **Something is taken**: there is one look-up more, and if it misses, one thing more. -/
theorem Stocked.take (stocked : s.Stocked looks released) (k : κ) (make : Unit → α) :
    (s.take k make).2.Stocked (looks + 1) released := by
  obtain ⟨rfl, hmisses, hinserts⟩ := stocked
  rcases hget : s.get? k with _ | a
  · have hsize : (s.put k (make ())).size + released = s.size + released + 1 := by
      rw [size_put_of_get?_eq_none hget, Nat.add_right_comm]
    rw [Shelf.take, Shelf.look, hget]
    exact ⟨rfl, congrArg (· + 1) hmisses, (congrArg (· + 1) hinserts).trans hsize.symm⟩
  · rw [Shelf.take, Shelf.look, hget]
    exact ⟨Nat.add_right_comm _ _ _, hmisses, hinserts⟩

/-- Looking counts one look and supplies nothing. -/
theorem Supplied.look (supplied : s.Supplied looks puts released) (k : κ) :
    (s.look k).2.Supplied (looks + 1) puts released := by
  obtain ⟨rfl, hinserts, hsize⟩ := supplied
  rw [Shelf.look]
  rcases s.get? k with _ | a
  · exact ⟨rfl, hinserts, hsize⟩
  · exact ⟨Nat.add_right_comm _ _ _, hinserts, hsize⟩

/-- **Something is put**, in a new place or in that of another thing. -/
theorem Supplied.put (supplied : s.Supplied looks puts released) (k : κ) (a : α) :
    (s.put k a).Supplied looks (puts + 1) released := by
  refine ⟨supplied.looks, congrArg (· + 1) supplied.inserts, ?_⟩
  calc (s.put k a).size + released ≤ s.size + 1 + released :=
        Nat.add_le_add_right (s.size_put_le k a) _
    _ = s.size + released + 1 := Nat.add_right_comm _ _ _
    _ ≤ puts + 1 := Nat.succ_le_succ supplied.size_le

end Store.Shelf

/-! ### The shelves of a store -/

/-- Nothing is left of a text without its margins exactly if it is blank. -/
theorem Text.isEmpty_core (text : List Char) : (core text).isEmpty = text.all isBlank := by
  rw [Bool.eq_iff_iff, List.isEmpty_iff, core_eq_nil_iff, List.all_eq_true]

namespace Markup.Leaf

/-- A text with something to be seen. -/
def isRun : Leaf → Bool
  | text value _ _ => !value.toList.all Text.isBlank
  | emote .. => false

/-- An emote. -/
def isEmote : Leaf → Bool
  | text .. => false
  | emote .. => true

end Markup.Leaf

instance : DecidablePred Outcome.IsSwapped
  | .swapped _ _ => .isTrue trivial
  | .failed _ | .discarded _ => .isFalse id

/-- How a store was used: by so many texts and emotes, with so many pictures put, and with
these reports of what was released. -/
structure Store.Used (s : Store) (runs emotes swaps : Nat) (reports : List Disposal) : Prop where
  geometries : s.geometries.Stocked runs (reports.map (·.geometries)).sum
  materials : s.materials.Stocked runs (reports.map (·.materials)).sum
  textures : s.textures.Supplied emotes swaps (reports.map (·.textures)).sum

section Used

variable {s t : Store} {runs emotes swaps : Nat} {reports : List Disposal}

/-- A new store was not used. -/
theorem Store.used_start : Used {} 0 0 0 [] :=
  ⟨Shelf.stocked_nil, Shelf.stocked_nil, Shelf.supplied_nil⟩

/-- Only the shelves matter. -/
theorem Store.Used.of_eq (used : s.Used runs emotes swaps reports)
    (geometries : t.geometries = s.geometries) (materials : t.materials = s.materials)
    (textures : t.textures = s.textures) : t.Used runs emotes swaps reports :=
  ⟨geometries ▸ used.geometries, materials ▸ used.materials, textures ▸ used.textures⟩

/-- A run looks for one solid and for materials once. -/
theorem Store.Used.run (used : s.Used runs emotes swaps reports) (k : SolidKey)
    (build : Unit → TextGeometry × List Event) (c : Color) :
    ((s.geometry k build).2.2.material c).2.Used (runs + 1) emotes swaps reports := by
  rw [shelves_geometry]
  exact ⟨used.geometries.take k _, used.materials.take c fun _ => .ofColor c, used.textures⟩

/-- A clearing reports what it releases. -/
theorem Store.Used.clear (used : s.Used runs emotes swaps reports) :
    s.clear.2.2.Used runs emotes swaps (reports ++ [s.clear.1]) := by
  have hsum : ∀ part : Disposal → Nat, ((reports ++ [s.clear.1]).map part).sum =
      (reports.map part).sum + part s.clear.1 := fun part => by
    rw [List.map_append, List.sum_append]
    rfl
  refine ⟨?_, ?_, ?_⟩
  · rw [hsum]
    exact used.geometries.clear
  · rw [hsum]
    exact used.materials.clear
  · rw [hsum]
    exact used.textures.clear

/-- A leaf looks once on the shelves it needs. -/
theorem Heading.Draft.used_add {d : Draft} (used : d.store.Used runs emotes swaps reports)
    (o : Options) (leaf : Leaf) :
    (d.add o leaf).store.Used (runs + if leaf.isRun then 1 else 0)
      (emotes + if leaf.isEmote then 1 else 0) swaps reports := by
  cases leaf with
  | text value color style =>
    rw [add, Text.isEmpty_core, Leaf.isRun]
    by_cases blank : value.toList.all Text.isBlank
    · rw [if_pos blank, blank]
      exact used
    · rw [if_neg blank, Bool.eq_false_iff.2 blank]
      exact used.run (.of (.ofList (Text.core value.toList)) style o.geometry)
        (fun _ => build o (.ofList (Text.core value.toList)) style) (Draft.color color).1
  | emote id color style =>
    exact ⟨used.geometries, used.materials, used.textures.look (o.emotes.urlFor id)⟩

/-- **A row** looks once for each of its leaves. -/
theorem Heading.Draft.used_foldl {d : Draft} (used : d.store.Used runs emotes swaps reports)
    (o : Options) (leaves : List Leaf) :
    (leaves.foldl (add o) d).store.Used (runs + leaves.countP Leaf.isRun)
      (emotes + leaves.countP Leaf.isEmote) swaps reports := by
  induction leaves generalizing d runs emotes with
  | nil => exact used
  | cons leaf leaves ih =>
    have hrest := ih (used_add used o leaf)
    rwa [Nat.add_assoc, Nat.add_assoc, Nat.add_comm _ (leaves.countP Leaf.isRun),
      Nat.add_comm _ (leaves.countP Leaf.isEmote), ← List.countP_cons, ← List.countP_cons] at hrest

/-- A heading that is set looks for a solid and materials for each run, and for a texture for each
emote. -/
theorem Heading.used_ofLeaves (used : s.Used runs emotes swaps reports) (o : Options)
    (loader : Loader) (leaves : List Leaf) :
    (ofLeaves o loader leaves s).2.2.Used (runs + leaves.countP Leaf.isRun)
      (emotes + leaves.countP Leaf.isEmote) swaps reports := by
  obtain ⟨hsolids, hmaterials, htextures⟩ := shelves_issueAll loader
    (Draft.ofLeaves o leaves s).requests (Draft.ofLeaves o leaves s).store
  exact (Draft.used_foldl (d := .start s) used o leaves).of_eq hsolids hmaterials htextures

/-- **An application** puts a picture on its shelf exactly if it swaps. -/
theorem Heading.used_apply (used : s.Used runs emotes swaps reports) (h : Heading)
    (d : Delivery) :
    (h.apply d s).2.2.2.Used runs emotes
      (swaps + if (h.apply d s).1.IsSwapped then 1 else 0) reports := by
  rcases apply_cases d h s with ⟨-, hout, heq⟩ | ⟨-, hout, heq⟩ | ⟨t, -, -, hout, heq⟩
  · rw [hout, heq]
    exact used.of_eq rfl rfl rfl
  · rw [hout, heq]
    exact used.of_eq rfl rfl rfl
  · rw [hout, heq]
    exact ⟨used.geometries, used.materials, used.textures.put d.errand.request.url t⟩

end Used

/-! ### The shelves in a run -/

/-- What an entry of a log says was released. -/
def Entry.report? : Entry → Option Disposal
  | cleared report => some report
  | _ => none

/-- What all clearings reported, in order. -/
def reports (log : List Entry) : List Disposal := log.filterMap Entry.report?

/-- The number of loads whose picture was put into the places that waited for it. -/
def swaps (log : List Entry) : Nat := (outcomes log).countP fun x => x.IsSwapped

/-- The leaves of all headings that some acts set. -/
def laidOut (acts : List Act) : List Leaf := (acts.filterMap Act.sheet).flatMap (·.2)

section Run

variable {w w' : Stage} {acts past : List Act} {log before : List Entry}

/-- Issuing loads is neither a clearing nor an application. -/
theorem reports_issues (h : Heading) : reports (issues h) = [] :=
  List.filterMap_eq_nil_iff.2 fun _ he => by
    obtain ⟨l, -, rfl⟩ := List.mem_map.1 he
    rfl

/-- Nothing is swapped in when loads are issued. -/
theorem swaps_issues (h : Heading) : swaps (issues h) = 0 := by
  have hnone : outcomes (issues h) = [] := List.filterMap_eq_nil_iff.2 fun _ he => by
    obtain ⟨l, -, rfl⟩ := List.mem_map.1 he
    rfl
  rw [swaps, hnone, List.countP_nil]

/-- A load that is applied is counted if it was swapped in. -/
theorem swaps_applied (load : Nat) (x : Outcome) :
    swaps [.applied load x] = if x.IsSwapped then 1 else 0 := by
  have hone : outcomes [.applied load x] = [x] := rfl
  rw [swaps, hone, List.countP_singleton]
  simp only [decide_eq_true_eq]

/-- The reports of two logs, one after the other. -/
theorem reports_append (log more : List Entry) :
    reports (log ++ more) = reports log ++ reports more := List.filterMap_append

/-- What was swapped in adds up. -/
theorem swaps_append (log more : List Entry) :
    swaps (log ++ more) = swaps log + swaps more := by
  rw [swaps, outcomes, List.filterMap_append, List.countP_append]
  rfl

/-- The leaves laid out by two runs, one after the other. -/
theorem laidOut_append (acts more : List Act) :
    laidOut (acts ++ more) = laidOut acts ++ laidOut more := by
  rw [laidOut, List.filterMap_append, List.flatMap_append]
  rfl

/-- The shelves of a store after some acts, by what those laid out and by their log. -/
def Store.UsedBy (s : Store) (acts : List Act) (log : List Entry) : Prop :=
  s.Used ((laidOut acts).countP Leaf.isRun) ((laidOut acts).countP Leaf.isEmote) (swaps log)
    (reports log)

/-- **One act** uses the shelves as the log says. -/
theorem Step.used {a : Act} (step : Step w a w') (used : w.store.UsedBy past before) :
    w'.store.UsedBy (past ++ [a]) (before ++ a.entries w) := by
  rw [Store.UsedBy, laidOut_append, List.countP_append, List.countP_append, swaps_append,
    reports_append]
  cases step with
  | set o loader leaves =>
    have hleaves : laidOut [.set o loader leaves] = leaves := List.append_nil leaves
    rw [hleaves, Act.entries, swaps_issues, reports_issues, List.append_nil]
    exact used_ofLeaves used o loader leaves
  | compile o loader markup =>
    have hleaves : laidOut [.compile o loader markup] = leavesOf markup := List.append_nil _
    have hreports : reports (Act.entries w (.compile o loader markup)) = [w.store.clear.1] :=
      congrArg (List.cons _) (reports_issues _)
    have hswaps : swaps (Act.entries w (.compile o loader markup)) = 0 :=
      swaps_issues _
    rw [hleaves, hreports, hswaps]
    exact used_ofLeaves used.clear o loader (leavesOf markup)
  | clear => exact used.clear
  | take =>
    exact (List.append_nil (reports before)).symm ▸ used
  | @apply i j h d taken own here =>
    have hreports : reports [.applied d.errand.load (h.apply d w.store).1] = [] := rfl
    rw [Act.entries, here, Option.map_some, Option.toList_some, swaps_applied, hreports,
      List.append_nil]
    exact used_apply used h d

/-- **A run** uses the shelves as the log says. -/
theorem Logged.used (logged : Logged w acts log w') (used : w.store.UsedBy past before) :
    w'.store.UsedBy (past ++ acts) (before ++ log) := by
  induction logged generalizing past before with
  | nil =>
    rw [List.append_nil, List.append_nil]
    exact used
  | @cons _ _ _ a _ _ step _ ih =>
    rw [← List.append_assoc, ← List.singleton_append, ← List.append_assoc]
    exact ih (step.used used)

end Run

/-- **The shelves are in balance.** A program does any acts, in any order, over one new
store.

There is one look-up for each text that is not blank on the shelves of solids and materials,
and one for each emote on that of pictures. Each solid or material that was missed was put
on its shelf, and stands there or was released by some clearing and reported. A picture was
put for each load that swapped; no more stand there or were reported. -/
theorem usage_balance {acts : List Act} {log : List Entry} {w : Stage}
    (logged : Logged .start acts log w) :
    let s := w.store
    let runs := (laidOut acts).countP Leaf.isRun
    (s.geometries.usage.hits + s.geometries.usage.misses = runs ∧
      s.materials.usage.hits + s.materials.usage.misses = runs ∧
      s.textures.usage.hits + s.textures.usage.misses = (laidOut acts).countP Leaf.isEmote) ∧
    (s.geometries.usage.misses = s.geometries.usage.inserts ∧
      s.geometries.usage.inserts = s.geometries.size + ((reports log).map (·.geometries)).sum) ∧
    (s.materials.usage.misses = s.materials.usage.inserts ∧
      s.materials.usage.inserts = s.materials.size + ((reports log).map (·.materials)).sum) ∧
    s.textures.usage.inserts = swaps log ∧
      s.textures.size + ((reports log).map (·.textures)).sum ≤ s.textures.usage.inserts := by
  have used : w.store.UsedBy ([] ++ acts) ([] ++ log) := logged.used used_start
  obtain ⟨geometries, materials, textures⟩ := used
  refine ⟨⟨geometries.looks, materials.looks, textures.looks⟩,
    ⟨geometries.misses, geometries.inserts⟩, ⟨materials.misses, materials.inserts⟩,
    textures.inserts, ?_⟩
  rw [textures.inserts]
  exact textures.size_le

/-- An emote is set behind a text and once more alone, and both times the picture comes and is
put under the one address. Of the two pictures that were put, only the second one is there to
be released; the solid was put once and is released. -/
theorem same_picture_put_twice :
    ∃ acts log w, Logged .start acts log w ∧ (laidOut acts).countP Leaf.isRun = 1 ∧
      w.store.geometries.usage.misses = 1 ∧ w.store.geometries.usage.hits = 0 ∧
      (reports log).map (·.geometries) = [1] ∧ (laidOut acts).countP Leaf.isEmote = 2 ∧
      w.store.textures.usage.inserts = 2 ∧ (reports log).map (·.textures) = [1] := by
  let first : List Leaf := [.text "a" "white" .regular, .emote "1" "white" .regular]
  let second : List Leaf := [.emote "1" "white" .regular]
  let d (slot load : Nat) : Delivery :=
    ⟨⟨⟨Options.inkless.emotes.urlFor "1", "1", [slot]⟩, 0, load⟩, some (.ok ⟨"", 1, 1⟩)⟩
  have yields : ∀ (h : Heading) (s : Store) (e : Delivery), e.result ≠ none →
      h.loads.map (·.errand) = [e.errand] → h.Yields s e { h with loads := [] } :=
    fun h s e answered hloads => ⟨hloads ▸ .refl _, rfl, fun hnone => absurd hnone answered⟩
  have logged : Logged .start [.set .inkless Loader.offline first, .take 0 (d 1 0),
      .set .inkless Loader.offline second, .take 1 (d 0 1), .apply 0 (d 1 0) 0,
      .apply 1 (d 0 1) 1, .clear] _ _ :=
    .cons (.set _ _ _) (.cons (.take rfl (yields _ _ _ (by decide) rfl)) (.cons (.set _ _ _)
      (.cons (.take rfl (yields _ _ _ (by decide) rfl)) (.cons (.apply (.swap _ _ _) rfl)
        (.cons (.apply (.refl _) rfl) (.cons .clear .nil))))))
  obtain ⟨⟨hlooks, -⟩, ⟨hmisses, hinserts⟩, -, hputs, -⟩ := usage_balance logged
  have hsolids : _ = 0 + 1 := hinserts
  have hruns : _ + _ = 1 := hlooks
  refine ⟨_, _, _, logged, rfl, ?_, ?_, rfl, rfl, hputs, rfl⟩
  · omega
  · omega

end Marquee
