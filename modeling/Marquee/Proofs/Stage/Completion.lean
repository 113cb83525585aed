import Marquee.Proofs.Heading.Order
import Marquee.Proofs.Stage.Basic
import Mathlib.Data.List.Nodup

/-!
# Loads in Whatever Order They Come

A heading is set over a store that a program left. Each of its loads will bring a picture or
fail; in which order they are over is not known. It does not matter: their addresses differ
and no two have a place in common, so the row, the shelves, what is under way and what comes
of each address are the same in the end.

Settling the heading goes through the loads in one of these orders, so it too ends the same
way, with one outcome to each load and nothing left to wait for.

## Main statements

* `sameEnd_applyAll` — loads that are apart come to the same in any two orders;
* `inFlight_applied` — once they are applied, what is under way is what was before;
* `order_irrelevant` — any two orders end the same, and so does settling.
-/

namespace Marquee

open Fetch Markup Store Heading

/-- The address that an outcome is about. -/
def Heading.Outcome.url : Outcome → String
  | swapped url _ | failed url | discarded url => url

namespace Heading

/-- The outcome of a load names its address. -/
theorem url_apply (d : Delivery) (h : Heading) (s : Store) :
    (h.apply d s).1.url = d.errand.request.url := by
  rcases apply_cases d h s with ⟨-, hout, -⟩ | ⟨-, hout, -⟩ | ⟨t, -, -, hout, -⟩
  all_goals rw [hout]; rfl

/-- Each load has one outcome, about its address. -/
theorem url_applyAll (ds : List Delivery) (h : Heading) (s : Store) :
    (applyAll ds h s).1.map Outcome.url = ds.map (·.errand.request.url) := by
  rw [outcomes_applyAll, List.map_map]
  exact List.map_congr_left fun d _ => url_apply d h s

/-- Two ways to apply the same loads that come to the same: what came of each address, the
heading, and the store. -/
structure SameEnd (x y : List Outcome × Heading × Store) : Prop where
  outcomes : x.1.Perm y.1
  outcome : ∀ a ∈ x.1, ∀ b ∈ y.1, a.url = b.url → a = b
  heading : x.2.1 = y.2.1
  store : x.2.2.Rearranged y.2.2

/-- What is for errands that are apart is for different addresses. -/
theorem nodup_url {α : Type} {f : α → Errand} {l : List α}
    (apart : (l.map f).Pairwise Errand.Apart) : (l.map fun a => (f a).request.url).Nodup := by
  rw [List.Nodup, List.pairwise_map]
  exact (List.pairwise_map.1 apart).imp fun h => h.url

/-- Loads that are apart come to the same in any two orders. -/
theorem sameEnd_applyAll {ds es : List Delivery} {h : Heading} {s : Store} (perm : ds.Perm es)
    (apart : (ds.map (·.errand)).Pairwise Errand.Apart) :
    SameEnd (applyAll ds h s) (applyAll es h s) := by
  have houtcomes : (applyAll ds h s).1.Perm (applyAll es h s).1 := by
    rw [outcomes_applyAll, outcomes_applyAll]
    exact perm.map _
  have hnodup : ((applyAll ds h s).1.map Outcome.url).Nodup := by
    rw [url_applyAll]
    exact nodup_url apart
  obtain ⟨hheading, hstore⟩ := applyAll_perm (h := h) (s := s) perm apart
  refine ⟨houtcomes, fun a ha b hb => ?_, hheading, hstore⟩
  exact List.inj_on_of_nodup_map hnodup ha (houtcomes.symm.subset hb)

/-- **What is under way** once all the loads of a heading were applied is what was under way before
it was set: no number that was out then is one of the heading. -/
theorem inFlight_applied {o : Options} {loader : Loader} {leaves : List Leaf} {s : Store}
    {ds : List Delivery} (sound : s.ledger.Sound)
    (all : (ds.map (·.errand)).Perm ((ofLeaves o loader leaves s).1.loads.map (·.errand)))
    (h : Heading) :
    (applyAll ds h (ofLeaves o loader leaves s).2.2).2.2.inFlight = s.inFlight := by
  have hset : (ofLeaves o loader leaves s).2.2.inFlight =
      (List.range' s.nextLoad (Draft.ofLeaves o leaves s).requests.length).reverse ++ s.inFlight :=
    congrArg Store.Ledger.inFlight (ledger_ofLeaves o loader leaves s)
  have hnumbers : (ds.map fun d => d.errand.load).Perm
      (List.range' s.nextLoad (Draft.ofLeaves o leaves s).requests.length) := by
    have hmap := map_load_ofLeaves o loader leaves s
    rw [length_errands_ofLeaves] at hmap
    have hperm := all.map (·.load)
    rwa [hmap, List.map_map] at hperm
  rw [inFlight_applyAll, hset, List.filter_append, List.filter_eq_nil_iff.2, List.filter_eq_self.2,
    List.nil_append]
  · intro n hn
    refine decide_eq_true fun hmem => ?_
    have hle := (List.mem_range'_1.1 (hnumbers.subset hmem)).1
    exact absurd (sound.inFlight_lt n hn) (Nat.not_lt.2 hle)
  · intro n hn hout
    exact of_decide_eq_true hout (hnumbers.symm.subset (List.mem_reverse.1 hn))

/-- A load that is over with its answer. -/
def delivered (l : Load) : Delivery := ⟨l.errand, some l.response.result⟩

/-- The loads of a heading just set will all have their answers. -/
theorem map_ended_ofLeaves {s : Store} (sound : s.ledger.Sound) (o : Options) (loader : Loader)
    (leaves : List Leaf) :
    (ofLeaves o loader leaves s).1.loads.map (ended (ofLeaves o loader leaves s).2.2.isCancelled) =
      (ofLeaves o loader leaves s).1.loads.map delivered := by
  refine List.map_congr_left fun l hl => ?_
  rw [ended, if_neg (not_cancelled_ofLeaves sound o loader leaves (List.mem_map_of_mem hl)),
    delivered]

/-- **The order of completion does not matter.** Over the store that any program left, a
heading is set, and its loads have different addresses. Let them all be over, each with any
answer, and apply them in two orders: both come to the same, with one outcome to each load,
and nothing is under way but what was before. Settling the heading waits for nothing more in
the end; what it reports and leaves is what applying the answered loads comes to, in whichever
order. -/
theorem order_irrelevant {past : List Act} {w : Stage} (run : Run .start past w) (o : Options)
    (loader : Loader) (leaves : List Leaf) :
    let h := (ofLeaves o loader leaves w.store).1
    let s := (ofLeaves o loader leaves w.store).2.2
    let settled := h.settle s.isCancelled s
    (h.loads.map (·.errand.request.url)).Nodup ∧
      (∀ ds es : List Delivery, (ds.map (·.errand)).Perm (h.loads.map (·.errand)) → ds.Perm es →
        SameEnd (applyAll ds h.drained s) (applyAll es h.drained s) ∧
          (applyAll ds h.drained s).1.map Outcome.url = ds.map (·.errand.request.url) ∧
          (applyAll ds h.drained s).2.2.inFlight = w.store.inFlight) ∧
      settled.heading.pending = 0 ∧
      settled.store.inFlight = w.store.inFlight ∧
      settled.outcomes.length = h.pending ∧
      ∀ ds : List Delivery, ds.Perm (h.loads.map delivered) →
        SameEnd (settled.outcomes, settled.heading, settled.store) (applyAll ds h.drained s) := by
  intro h s settled
  have sound := run.sound .start
  have apart := apart_ofLeaves o loader leaves w.store
  have herrands : (h.loads.map delivered).map (·.errand) = h.loads.map (·.errand) := by
    rw [List.map_map]
    rfl
  obtain ⟨order, horder, hsettled⟩ := settleNext_eq_applyAll s.isCancelled (s := s)
    (Nat.le_refl h.pending)
  rw [map_ended_ofLeaves sound.ledger] at horder
  have hall : (order.map (·.errand)).Perm (h.loads.map (·.errand)) :=
    herrands ▸ horder.map (·.errand)
  have hapart : (order.map (·.errand)).Pairwise Errand.Apart :=
    hall.symm.pairwise apart fun hsym => hsym.symm
  have hend : (settled.outcomes, settled.heading, settled.store) = applyAll order h.drained s :=
    hsettled
  refine ⟨nodup_url apart, fun ds es all reordered => ?_, ?_, ?_, ?_, fun ds hds => ?_⟩
  · have hds := all.symm.pairwise apart fun hsym => hsym.symm
    exact ⟨sameEnd_applyAll reordered hds, url_applyAll ds _ _,
      inFlight_applied sound.ledger all _⟩
  · have hheading := congrArg (fun x => x.2.1.pending) hend
    refine hheading.trans ?_
    rw [drained, applyAll_loads]
    rfl
  · have hstore := congrArg (fun x => x.2.2.inFlight) hend
    exact hstore.trans (inFlight_applied sound.ledger hall _)
  · have houtcomes := congrArg (fun x => x.1.length) hend
    refine houtcomes.trans ?_
    rw [outcomes_applyAll, List.length_map, horder.length_eq, List.length_map]
    rfl
  · rw [hend]
    exact sameEnd_applyAll (horder.trans hds.symm) hapart

/-- Of two emotes one gets its picture and the other does not. Both orders come to the same,
with the outcomes in the order of the loads. -/
theorem either_order :
    ∃ ds es : List Delivery, ds ≠ es ∧
      let h := (ofLeaves .inkless .offline [.emote "1" "white" .regular, .emote "2" "white" .bold]
        {}).1
      let s := (ofLeaves .inkless .offline [.emote "1" "white" .regular, .emote "2" "white" .bold]
        {}).2.2
      SameEnd (applyAll ds h.drained s) (applyAll es h.drained s) ∧
        (applyAll ds h.drained s).1 = [.swapped (Options.inkless.emotes.urlFor "1") 1,
          .failed (Options.inkless.emotes.urlFor "2")] ∧
        (applyAll es h.drained s).1 = [.failed (Options.inkless.emotes.urlFor "2"),
          .swapped (Options.inkless.emotes.urlFor "1") 1] := by
  let picture : Delivery :=
    ⟨⟨⟨Options.inkless.emotes.urlFor "1", "1", [0]⟩, 0, 0⟩, some (.ok ⟨"", 1, 1⟩)⟩
  let failure : Delivery :=
    ⟨⟨⟨Options.inkless.emotes.urlFor "2", "2", [1]⟩, 0, 1⟩, some (.error (.texture "" ""))⟩
  obtain ⟨-, horders, -⟩ := order_irrelevant .nil .inkless .offline
    [.emote "1" "white" .regular, .emote "2" "white" .bold]
  refine ⟨[picture, failure], [failure, picture], ?_, (horders _ _ ?_ (.swap _ _ _)).1, ?_, ?_⟩
  · intro heq
    have hload : picture.errand.load = failure.errand.load :=
      congrArg (fun d => d.errand.load) (List.cons.inj heq).1
    cases hload
  · exact .refl _
  · rfl
  · rfl

end Heading

end Marquee
