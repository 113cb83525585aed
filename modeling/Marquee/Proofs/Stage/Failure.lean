import Marquee.Command.Run
import Marquee.Proofs.Heading.Answered
import Marquee.Proofs.Stage.Balance

/-!
# Failures That Do Not Show

A load that fails in time is noted and ended; heading, shelves and generation are those of
before. So a pass shows the same before and after it was settled if no picture comes, and
setting a heading without asking for pictures writes what asking in vain writes. What
pictures do come show in their own places only.

## Main statements

* `Run.apply_failed` — a failure ends one load and does nothing else;
* `settle_compile` — a pass that was settled, with any mixture of pictures and failures;
* `sceneOf_fetched`, `run_noFetch` — a job that asks for pictures and one that does not;
* `failure_unseen` — all of it for the runs of a program.
-/

namespace Marquee

open Command Fetch Files Heading Markup Scene Stage Store

/-! ### One failure -/

/-- A number that is listed once stands apart from the others. -/
theorem perm_cons_filter_ne {ns : List Nat} (nodup : ns.Nodup) {n : Nat} (hn : n ∈ ns) :
    ns.Perm (n :: ns.filter (· != n)) := by
  rw [← nodup.erase_eq_filter]
  exact List.perm_cons_erase hn

section Failure

variable {acts : List Act} {w : Stage}

/-- **A failure that comes in time** ends its load, and all else is as it was. -/
theorem Run.apply_failed (run : Run .start acts w) {i : Nat} {d : Delivery}
    (held : (i, d) ∈ w.taken) (current : d.errand.generation = w.store.generation) {e : Error}
    (failed : d.result = some (.error e)) (h : Heading) :
    ∃ rest, h.apply d w.store = (.failed d.errand.request.url,
        [.loadFailed d.errand.request.emoteId e.message], h, { w.store with inFlight := rest }) ∧
      w.store.inFlight.Perm (d.errand.load :: rest) := by
  obtain ⟨log, logged⟩ := run.exists_log
  have balanced := logged.balanced .start balanced_start
  have pending : d.errand.load ∈ w.store.inFlight :=
    balanced.pending _ (mem_held_of_awaits (.inr ⟨d, held, rfl⟩)) current
  exact ⟨_, apply_of_error current failed, perm_cons_filter_ne balanced.nodup_inFlight pending⟩

end Failure

/-! ### A pass -/

section Pass

variable {o : Options} {loader : Loader} {s : Store}

/-- **A pass that was settled**, whatever the loader has. -/
theorem Heading.settle_compile (sound : s.clear.2.2.ledger.Sound) (o : Options) (loader : Loader)
    (markup : String) :
    let pass := compile o loader markup s
    (pass.1.settle pass.2.2.isCancelled pass.2.2).heading = { pass.1 with
      loads := []
      row := answered o loader (leavesOf markup) pass.1.row } :=
  settled_heading sound (fun url => s.textures.get?_clear url) o loader (leavesOf markup)

/-- A pass makes one child for each leaf. -/
theorem Heading.length_compile (o : Options) (loader : Loader) (markup : String) (s : Store) :
    (compile o loader markup s).1.row.children.length = (leavesOf markup).length :=
  length_children rfl

end Pass

/-! ### A job -/

section Job

variable {o : Options} {loader : Loader} {job : Job}

/-- A pose turns a group and leaves what is in it alone. -/
theorem Command.posed_add (camera : Camera) (floatAt : Option Float32) (g : Group) (n : Node) :
    posed camera floatAt (g.add n) = (posed camera floatAt g).add n := by
  cases floatAt <;> rfl

/-- **A job with pictures and one without** differ in the pictures that come. -/
theorem Command.sceneOf_fetched (o : Options) (loader : Loader) (job : Job) :
    ∃ pivot row : Group, row.children.length = (leavesOf job.markup).length ∧
      sceneOf o loader { job with noFetch := true } = pivot.add row.toNode ∧
      sceneOf o loader { job with noFetch := false } =
        pivot.add (answered o loader (leavesOf job.markup) row).toNode := by
  have sound : ({} : Store).clear.2.2.ledger.Sound := Sound.start.cleared.ledger
  refine ⟨posed o.camera job.floatAt (compile o loader job.markup {}).1.pivot,
    (compile o loader job.markup {}).1.row, length_compile o loader job.markup {}, ?_, ?_⟩
  · rw [← posed_add]
    rfl
  · have hscene : sceneOf o loader { job with noFetch := false } = posed o.camera job.floatAt
        ((compile o loader job.markup {}).1.settle (compile o loader job.markup {}).2.2.isCancelled
          (compile o loader job.markup {}).2.2).heading.scene := rfl
    rw [hscene, settle_compile sound, ← posed_add]
    rfl

/-- Where no picture can be had, a job writes the same whether it asks or not. -/
theorem Command.sceneOf_of_fails (fails : Fails o (leavesOf job.markup) loader) :
    sceneOf o loader { job with noFetch := true } =
      sceneOf o loader { job with noFetch := false } := by
  obtain ⟨pivot, row, hlength, hbare, hfetched⟩ := sceneOf_fetched o loader job
  rw [hbare, hfetched, answered_of_fails fails hlength]

/-- Leaving the pictures out makes what a loader makes that only fails. -/
theorem Command.run_noFetch {m : Type → Type} [Monad m] (d : Disk m)
    (fails : ∀ url, ∃ e, (loader url).result = .error e) :
    run d loader (.render { job with noFetch := true }) =
      run d loader (.render { job with noFetch := false }) := by
  have hscene : ∀ o, sceneOf o loader { job with noFetch := true } =
      sceneOf o loader { job with noFetch := false } := fun o =>
    sceneOf_of_fails fun _ id _ _ _ => fails (o.emotes.urlFor id)
  simp only [run, carryOut, hscene]
  rfl

end Job

/-! ### Programs -/

/-- **Failures do not show.** A program does any acts, in any order, over one store.

A load that it holds, of the store's generation and with a failure for an answer, is applied to
any heading: its address is reported as failed, the heading stays, and of the store only the
number of the load goes from those under way.

A pass over any markup comes next, and is settled. If no emote gets a picture, every load is
reported as failed and the scene is the one before; in any case only the places of emotes
whose pictures came are not what they were.

A job that does not ask for pictures writes the scene of one that asks in vain, on any disk;
and what pictures there are for one that asks is all the difference between the two. -/
theorem failure_unseen {acts : List Act} {w : Stage} (run : Run .start acts w) :
    (∀ (i : Nat) (d : Delivery) (e : Error), (i, d) ∈ w.taken →
      d.errand.generation = w.store.generation → d.result = some (.error e) → ∀ h : Heading, ∃ rest,
        h.apply d w.store = (.failed d.errand.request.url,
          [.loadFailed d.errand.request.emoteId e.message], h,
          { w.store with inFlight := rest }) ∧
        w.store.inFlight.Perm (d.errand.load :: rest)) ∧
    (∀ (o : Options) (loader : Loader) (markup : String),
      let pass := compile o loader markup w.store
      let settled := pass.1.settle pass.2.2.isCancelled pass.2.2
      (Fails o (leavesOf markup) loader → settled.heading.scene = pass.1.scene ∧
        ∀ x ∈ settled.outcomes, ∃ url, x = .failed url) ∧
      settled.heading = { pass.1 with
        loads := [], row := answered o loader (leavesOf markup) pass.1.row } ∧
      ∀ i : Nat, settled.heading.row.children[i]? ≠ pass.1.row.children[i]? →
        ∃ id color style t, (leavesOf markup)[i]? = some (Leaf.emote id color style) ∧
          (loader (o.emotes.urlFor id)).result = .ok t) ∧
    (∀ (m : Type → Type) [Monad m] (d : Disk m) (loader : Loader) (job : Job),
      (∀ url, ∃ e, (loader url).result = .error e) →
        Command.run d loader (.render { job with noFetch := true }) =
          Command.run d loader (.render { job with noFetch := false })) ∧
    ∀ (o : Options) (loader : Loader) (job : Job),
      (Fails o (leavesOf job.markup) loader → sceneOf o loader { job with noFetch := true } =
        sceneOf o loader { job with noFetch := false }) ∧
      ∃ pivot row : Group, row.children.length = (leavesOf job.markup).length ∧
        sceneOf o loader { job with noFetch := true } = pivot.add row.toNode ∧
        sceneOf o loader { job with noFetch := false } =
          pivot.add (answered o loader (leavesOf job.markup) row).toNode := by
  have sound : w.cleared.store.ledger.Sound := (run.sound .start).cleared.ledger
  refine ⟨fun i d e held current failed => run.apply_failed held current failed,
    fun o loader markup => ?_, fun m _ d loader job => run_noFetch d,
    fun o loader job => ⟨sceneOf_of_fails, sceneOf_fetched o loader job⟩⟩
  have hsettled := settle_compile sound o loader markup
  have hlength := length_compile o loader markup w.store
  refine ⟨fun fails => ⟨?_, outcomes_of_fails sound fails⟩, hsettled, fun i ne => ?_⟩
  · rw [hsettled, answered_of_fails fails hlength]
    rfl
  · rw [hsettled] at ne
    exact exists_picture_of_ne hlength ne

/-- An emote is set whose picture cannot be had. Its one load is noted and ended. -/
theorem failed_load_ended :
    ∃ d w h e, Run .start [.set .inkless .offline [.emote "1" "white" .regular], .take 0 d] w ∧
      w.headings[0]? = some h ∧ d.result = some (.error e) ∧ w.store.inFlight = [0] ∧
      h.apply d w.store = (.failed (Options.inkless.emotes.urlFor "1"),
        [.loadFailed "1" e.message], h, { w.store with inFlight := [] }) := by
  let url := Options.inkless.emotes.urlFor "1"
  let e : Error := .texture "texture fetching is disabled" url
  let d : Delivery := ⟨⟨⟨url, "1", [0]⟩, 0, 0⟩, some (.error e)⟩
  let set := ofLeaves .inkless .offline [.emote "1" "white" .regular] {}
  have yields : set.1.Yields set.2.2 d { set.1 with loads := [] } :=
    ⟨.refl _, rfl, fun hnone => by cases hnone⟩
  have run : Run .start [.set .inkless .offline [.emote "1" "white" .regular], .take 0 d] _ :=
    .cons (.set _ _ _) (.cons (.take rfl yields) .nil)
  obtain ⟨rest, happly, hrest⟩ := (failure_unseen run).1 0 d e List.mem_cons_self rfl rfl
    { set.1 with loads := [] }
  have hnil : rest = [] := List.length_eq_zero_iff.1 (Nat.succ_inj.1 hrest.length_eq.symm)
  subst hnil
  exact ⟨d, _, _, e, run, rfl, rfl, rfl, happly⟩

end Marquee
