import Marquee.Proofs.Stage.Basic

/-!
# Late Completions

A load is of use as long as the store was not cleared since it was issued. Two things say
so, the number of its generation and the calling off, and neither is told of the other:
the first is looked at when the load is applied, the second while it is under way. On every
stage that a program can reach they agree, so a load is dropped exactly if a clearing came
between, and a load that is dropped leaves no trace.

## Main statements

* `Stage.Sound.late_iff` — a load is late exactly when a generation has passed since;
* `Stage.Sound.apply_of_late` — a late load changes neither its heading nor the store;
* `discarded_iff_cleared` — whatever was done in between, a load is dropped if and only if
  the store was cleared since it was issued.
-/

namespace Marquee

open Fetch Heading Stage

namespace Stage

variable {w : Stage} {i : Nat} {d : Delivery}

/-- A load that is late was issued in an earlier generation, also if it has no answer: on
a sound stage only a clearing calls loads off. -/
theorem Sound.late_iff (sound : w.Sound) (held : (i, d) ∈ w.taken) :
    Late d w.store ↔ d.errand.generation < w.store.generation := by
  have issued : w.store.ledger.Issued d.errand := sound.issued i _ (.inr ⟨d, held, rfl⟩)
  constructor
  · rintro (hne | hnone)
    · exact Nat.lt_of_le_of_ne issued.generation_le hne
    · refine Nat.lt_of_le_of_ne issued.generation_le fun heq => ?_
      exact issued.current heq (sound.called_off _ held hnone)
  · exact fun hlt => .inl (Nat.ne_of_lt hlt)

/-- A late load is not under way, so there is nothing to finish either. -/
theorem Sound.apply_of_late (sound : w.Sound) (held : (i, d) ∈ w.taken) (late : Late d w.store)
    (h : Heading) : (h.apply d w.store).2.2 = (h, w.store) := by
  have issued : w.store.ledger.Issued d.errand := sound.issued i _ (.inr ⟨d, held, rfl⟩)
  have hidle : d.errand.load ∉ w.store.inFlight :=
    issued.stale ((sound.late_iff held).1 late)
  rw [Heading.apply_of_late late, Store.finish_eq_self hidle]

end Stage

/-! ### Waiting for loads of which all are late -/

/-- The loads that come late leave nothing behind but a shorter queue. -/
theorem Heading.settleNext_of_late {h : Heading} {s : Store}
    (late : ∀ e ∈ h.loads.map (·.errand), e.generation ≠ s.generation ∧ e.load ∉ s.inFlight)
    (n : Nat) :
    (h.settleNext s.isCancelled n s).store = s ∧
      (h.settleNext s.isCancelled n s).heading.row = h.row := by
  induction n generalizing h with
  | zero => exact ⟨rfl, rfl⟩
  | succ n ih =>
    rcases hnext : h.next s.isCancelled with _ | ⟨d, after, calls⟩
    · rw [settleNext_of_none hnext]
      exact ⟨rfl, rfl⟩
    · have yields := yields_next hnext
      obtain ⟨hgen, hidle⟩ := late d.errand (yields.queue.subset List.mem_cons_self)
      have happly : (after.apply d s).2.2 = (after, s) := by
        rw [apply_of_late (.inl hgen), Store.finish_eq_self hidle]
      have hrow : after.row = h.row := by rw [yields.rest]
      rw [settleNext_of_some hnext, happly, ← hrow]
      exact ih fun e he => late e (yields.queue.subset (List.mem_cons_of_mem _ he))

/-! ### The clearings since a heading was set -/

section Since

variable {past later : List Act} {w₀ w₁ w : Stage} {a : Act}

/-- A load of a heading is of an earlier generation exactly if a clearing came between. -/
theorem stale_iff_cleared (before : Run .start past w₀) (issue : Step w₀ a w₁) (sets : a.sets)
    (since : Run w₁ later w) {e : Errand} (held : w.Awaits w₀.headings.length e) :
    e.generation < w.store.generation ↔ ∃ b ∈ later, b.clears := by
  have old : w₀.headings.length < w₁.headings.length := issue.length_lt sets
  have hgen : e.generation = w₁.store.generation :=
    issue.fresh sets (before.sound .start) (since.awaits old held)
  rw [hgen, since.generation, ← List.countP_pos_iff]
  omega

/-- A load is discarded, whichever heading it is applied to, if and only if something was cleared
since it was issued. -/
theorem isDiscarded_iff_cleared (before : Run .start past w₀) (issue : Step w₀ a w₁)
    (sets : a.sets) (since : Run w₁ later w) {d : Delivery}
    (held : (w₀.headings.length, d) ∈ w.taken) (h : Heading) :
    (h.apply d w.store).1.IsDiscarded ↔ ∃ b ∈ later, b.clears := by
  have sound : w.Sound := (before.append (.cons issue since)).sound .start
  rw [isDiscarded_apply_iff, sound.late_iff held]
  exact stale_iff_cleared before issue sets since (.inr ⟨d, held, rfl⟩)

/-- **Late completions are no-ops.** After any run, some act sets a heading, and any run
follows it. Then a load of that heading is dropped if and only if the later run cleared the
store, be it applied by itself or in settling the heading; and what is dropped leaves the
heading and the store exactly as they were. -/
theorem discarded_iff_cleared (before : Run .start past w₀) (issue : Step w₀ a w₁)
    (sets : a.sets) (since : Run w₁ later w) :
    ∃ h, w.headings[w₀.headings.length]? = some h ∧
      (∀ d, (w₀.headings.length, d) ∈ w.taken →
        ((h.apply d w.store).1.IsDiscarded ↔ ∃ b ∈ later, b.clears) ∧
        ((h.apply d w.store).1.IsDiscarded → (h.apply d w.store).2.2 = (h, w.store))) ∧
      (∀ x ∈ (h.settle w.store.isCancelled w.store).outcomes,
        (x.IsDiscarded ↔ ∃ b ∈ later, b.clears)) ∧
      ((∃ b ∈ later, b.clears) →
        (h.settle w.store.isCancelled w.store).store = w.store ∧
        (h.settle w.store.isCancelled w.store).heading.row = h.row) := by
  have sound : w.Sound := (before.append (.cons issue since)).sound .start
  obtain ⟨h, here⟩ : ∃ h, w.headings[w₀.headings.length]? = some h :=
    ⟨_, List.getElem?_eq_getElem
      (Nat.lt_of_lt_of_le (issue.length_lt sets) since.length_le)⟩
  refine ⟨h, here, fun d held => ⟨?_, fun hout => ?_⟩, fun x hx => ?_, fun cleared => ?_⟩
  · exact isDiscarded_iff_cleared before issue sets since held h
  · exact sound.apply_of_late held (isDiscarded_apply_iff.1 hout) h
  · -- the outcome is one of a later stage, but settling has cleared nothing
    obtain ⟨acts, w', h', d, quiet, run, -, held, rfl⟩ := exists_run_of_mem_outcomes here hx
    rw [isDiscarded_iff_cleared before issue sets (since.append run) held h']
    constructor
    · rintro ⟨b, hb, clears⟩
      rcases List.mem_append.1 hb with hb | hb
      · exact ⟨b, hb, clears⟩
      · exact absurd clears (quiet b hb)
    · rintro ⟨b, hb, clears⟩
      exact ⟨b, List.mem_append_left _ hb, clears⟩
  · refine settleNext_of_late (fun e he => ?_) h.pending
    have held : w.Awaits w₀.headings.length e := .inl ⟨h, here, he⟩
    have stale : e.generation < w.store.generation :=
      (stale_iff_cleared before issue sets since held).2 cleared
    exact ⟨Nat.ne_of_lt stale, (sound.issued _ e held).stale stale⟩

end Since

/-- One emote is set, its picture comes, the store is cleared, and only then is the picture
applied. -/
theorem discarded_after_clear :
    ∃ w h d t, Run .start
        [.set .inkless Loader.offline [.emote "1" "white" .regular], .take 0 d, .clear] w ∧
      w.headings[0]? = some h ∧ (0, d) ∈ w.taken ∧ d.result = some (.ok t) ∧
      (h.apply d w.store).1.IsDiscarded ∧ (h.apply d w.store).2.2 = (h, w.store) := by
  let d : Delivery := ⟨⟨⟨Options.inkless.emotes.urlFor "1", "1", [0]⟩, 0, 0⟩, some (.ok ⟨"", 1, 1⟩)⟩
  let set := ofLeaves .inkless Loader.offline [.emote "1" "white" .regular] {}
  have issue : Step .start (.set .inkless Loader.offline [.emote "1" "white" .regular])
    (Stage.start.hang set) := .set _ _ _
  have yields : set.1.Yields set.2.2 d { set.1 with loads := [] } :=
    ⟨.refl _, rfl, fun hnone => by cases hnone⟩
  have since : Run (Stage.start.hang set) [.take 0 d, .clear] _ :=
    .cons (.take rfl yields) (.cons .clear .nil)
  obtain ⟨h, here, hload, -⟩ := discarded_iff_cleared .nil issue rfl since
  obtain ⟨hiff, hkeep⟩ := hload d List.mem_cons_self
  have hout := hiff.2 ⟨.clear, List.mem_cons_of_mem _ List.mem_cons_self, rfl⟩
  exact ⟨_, h, d, _, .cons issue since, here, List.mem_cons_self, rfl, hout, hkeep hout⟩

end Marquee
