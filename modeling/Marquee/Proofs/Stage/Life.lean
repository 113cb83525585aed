import Marquee.Proofs.Heading.Life
import Marquee.Proofs.Stage.Basic

/-!
# One Heading in a Run

Of a run with any number of headings over one store, what happens to one of them is a life
of it: the other acts only decide over which store a load is applied. As long as no load
of another heading is applied to it, the loads of its life are its own.

## Main statements

* `Run.life` — a run takes a heading through a life of it;
* `Run.own_life` — with the loads that were issued for it.
-/

namespace Marquee

open Fetch Heading Stage

section Life

variable {w w' : Stage} {i : Nat} {h : Heading}

/-- What one act does to a heading, and the load that it applies to it, if it does. -/
theorem Step.life {a : Act} (step : Step w a w') (here : w.headings[i]? = some h) :
    ∃ past h', w'.headings[i]? = some h' ∧ Life h past h' ∧
      ∀ p ∈ past, ∃ k, a = .apply k p.1 i ∧ (k, p.1) ∈ w.taken := by
  have hlt : i < w.headings.length := (List.getElem?_eq_some_iff.1 here).1
  cases step with
  | set | compile =>
    exact ⟨[], h, (List.getElem?_append_left hlt).trans here, .set, List.forall_mem_nil _⟩
  | clear => exact ⟨[], h, here, .set, List.forall_mem_nil _⟩
  | @take j _ after d there yields =>
    by_cases hij : i = j
    · subst hij
      obtain rfl := Option.some.inj (here.symm.trans there)
      refine ⟨[], after, List.getElem?_set_self hlt, ?_, List.forall_mem_nil _⟩
      rw [yields.rest]
      exact .wait _ .set
    · exact ⟨[], h, (List.getElem?_set_ne (Ne.symm hij)).trans here, .set, List.forall_mem_nil _⟩
  | @apply k j _ d taken own there =>
    by_cases hij : i = j
    · subst hij
      obtain rfl := Option.some.inj (here.symm.trans there)
      refine ⟨_, _, List.getElem?_set_self hlt, .apply d w.store .set, ?_⟩
      exact List.forall_mem_singleton.2 ⟨k, rfl, own.symm.subset List.mem_cons_self⟩
    · exact ⟨[], h, (List.getElem?_set_ne (Ne.symm hij)).trans here, .set, List.forall_mem_nil _⟩

/-- **A run takes a heading through a life of it.** Each load of that life was applied to
it, and was held until then. -/
theorem Run.life {acts : List Act} (run : Run w acts w') (here : w.headings[i]? = some h) :
    ∃ past h', w'.headings[i]? = some h' ∧ Life h past h' ∧
      ∀ p ∈ past, ∃ k, .apply k p.1 i ∈ acts ∧ (k < w.headings.length → w.Awaits k p.1.errand) := by
  induction run generalizing h with
  | nil => exact ⟨[], h, here, .set, List.forall_mem_nil _⟩
  | @cons w w₁ w₂ a acts step rest ih =>
    obtain ⟨first, h₁, here₁, life₁, hfirst⟩ := step.life here
    obtain ⟨more, h₂, here₂, life₂, hmore⟩ := ih here₁
    refine ⟨more ++ first, h₂, here₂, life₁.trans life₂, fun p hp => ?_⟩
    rcases List.mem_append.1 hp with hp | hp
    · obtain ⟨k, hmem, hheld⟩ := hmore p hp
      exact ⟨k, List.mem_cons_of_mem _ hmem, fun hk =>
        step.awaits hk (hheld (Nat.lt_of_lt_of_le hk step.length_le))⟩
    · obtain ⟨k, rfl, htaken⟩ := hfirst p hp
      exact ⟨k, List.mem_cons_self, fun _ => .inr ⟨p.1, htaken, rfl⟩⟩

/-- A heading that is set in a run lives on its own loads, unless one is given those of
another. -/
theorem Run.own_life {past later : List Act} {w₀ w₁ : Stage} {a : Act}
    (before : Run .start past w₀) (issue : Step w₀ a w₁) (sets : a.sets)
    (since : Run w₁ later w) (here : w₁.headings[w₀.headings.length]? = some h)
    (own : ∀ k d, .apply k d w₀.headings.length ∈ later → k = w₀.headings.length) :
    ∃ applied h', w.headings[w₀.headings.length]? = some h' ∧ Life h applied h' ∧
      ∀ p ∈ applied, p.1.errand ∈ h.loads.map (·.errand) := by
  obtain ⟨applied, h', here', life, hall⟩ := since.life here
  refine ⟨applied, h', here', life, fun p hp => ?_⟩
  obtain ⟨k, hmem, hheld⟩ := hall p hp
  obtain rfl := own k p.1 hmem
  rcases hheld (List.getElem?_eq_some_iff.1 here).1 with ⟨h₁, here₁, he⟩ | ⟨d, htaken, -⟩
  · rw [here] at here₁
    cases here₁
    exact he
  · exact absurd (issue.taken_lt sets (before.sound .start) _ htaken) (Nat.lt_irrefl _)

end Life

end Marquee
