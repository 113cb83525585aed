import Marquee.Proofs.Stage.Late
import Mathlib.Algebra.GroupWithZero.Nat
import Mathlib.Data.List.DropRight
import Mathlib.Data.List.Perm.Basic

/-!
# The Balance of Loads

A run is written down as a log: each load that is issued, each that is applied and what came
of it, and each clearing with its report. The log alone then tells which loads are under way,
those issued since the last clearing and not applied, and the store agrees with it whatever
the order of acts.

What could upset the balance is a late load. Its number survives the clearing that called it
off, and it is still finished when it is applied. But numbers are never given out twice, so
none of those under way is hit (`Balanced.finish`).

## Main statements

* `Balanced.issue`, `Balanced.clear`, `Balanced.finish` — what issuing, clearing and applying
  add to a log keeps it in balance with the account of the store;
* `Step.balanced`, `Logged.balanced` — so does every act, and every run;
* `Run.exists_log` — every run has a log;
* `Logged.settleNext` — settling a heading is written down as its applications;
* `loads_balance` — at all times, which loads are under way and where all others went.
-/

namespace Marquee

open Fetch Heading Markup Scene Stage

/-! ### Logs -/

/-- What happens to loads. -/
inductive Entry where
  /-- A load is issued and given a number. -/
  | issued (load : Nat)
  /-- A load is applied. -/
  | applied (load : Nat) (outcome : Outcome)
  /-- The store is cleared and reports what it released. -/
  | cleared (report : Disposal)

namespace Entry

/-- The number of the load that an entry issues. -/
def issued? : Entry → Option Nat
  | issued load => some load
  | _ => none

/-- The number of the load that an entry applies. -/
def applied? : Entry → Option Nat
  | applied load _ => some load
  | _ => none

/-- What came of the load that an entry applies. -/
def outcome? : Entry → Option Outcome
  | applied _ outcome => some outcome
  | _ => none

/-- Whether an entry is a clearing. -/
def clears : Entry → Bool
  | cleared _ => true
  | _ => false

/-- The number of loads that an entry reports as called off. -/
def calledOff : Entry → Nat
  | cleared report => report.loads
  | _ => 0

end Entry

instance : DecidablePred Outcome.IsDiscarded
  | .swapped _ _ | .failed _ => .isFalse id
  | .discarded _ => .isTrue trivial

/-- The numbers of all loads issued, in order. -/
def issuedLoads (log : List Entry) : List Nat := log.filterMap Entry.issued?

/-- The numbers of all loads applied, in order. -/
def appliedLoads (log : List Entry) : List Nat := log.filterMap Entry.applied?

/-- What came of the loads applied, in order. -/
def outcomes (log : List Entry) : List Outcome := log.filterMap Entry.outcome?

/-- The entries since the last clearing. -/
def latest (log : List Entry) : List Entry := log.rtakeWhile fun e => !e.clears

/-- The loads issued since the last clearing that were not applied. -/
def outstanding (log : List Entry) : List Nat :=
  (issuedLoads (latest log)).filter fun n => n ∉ appliedLoads log

/-- The number of loads that all clearings together called off. -/
def calledOff (log : List Entry) : Nat := (log.map Entry.calledOff).sum

/-- The number of loads that were applied and not dropped. -/
def landed (log : List Entry) : Nat := (outcomes log).countP fun x => ¬ x.IsDiscarded

/-- The entry of each load of a heading that is set. -/
def issues (h : Heading) : List Entry := h.loads.map fun l => .issued l.errand.load

/-- What an act on a stage adds to the log. -/
def Act.entries (w : Stage) : Act → List Entry
  | set o loader leaves => issues (Heading.ofLeaves o loader leaves w.store).1
  | compile o loader markup =>
    .cleared w.store.clear.1 :: issues (Heading.compile o loader markup w.store).1
  | clear => [.cleared w.store.clear.1]
  | take _ _ => []
  | apply _ d target =>
    (w.headings[target]?.map fun h => .applied d.errand.load (h.apply d w.store).1).toList

/-- Some acts of a program, one after the other, and their log. -/
inductive Logged : Stage → List Act → List Entry → Stage → Prop
  | nil {w : Stage} : Logged w [] [] w
  | cons {w w₁ w₂ : Stage} {a : Act} {acts : List Act} {log : List Entry} :
      Step w a w₁ → Logged w₁ acts log w₂ → Logged w (a :: acts) (a.entries w ++ log) w₂

section Logged

variable {w w₁ w' : Stage} {acts more : List Act} {log log' : List Entry}

/-- What is logged is a run. -/
theorem Logged.run (logged : Logged w acts log w') : Run w acts w' := by
  induction logged with
  | nil => exact .nil
  | cons step _ ih => exact .cons step ih

/-- Every run can be written down. -/
theorem Run.exists_log (run : Run w acts w') : ∃ log, Logged w acts log w' := by
  induction run with
  | nil => exact ⟨[], .nil⟩
  | cons step _ ih =>
    obtain ⟨log, rest⟩ := ih
    exact ⟨_, .cons step rest⟩

/-- Runs in a row log one after the other. -/
theorem Logged.append (logged : Logged w acts log w₁) (rest : Logged w₁ more log' w') :
    Logged w (acts ++ more) (log ++ log') w' := by
  induction logged with
  | nil => exact rest
  | cons step _ ih =>
    rw [List.append_assoc]
    exact .cons step (ih rest)

end Logged

/-! ### What entries add to a log -/

section Append

variable {log : List Entry} {loads : List Nat} {n : Nat} {x : Outcome} {report : Disposal}

/-- The loads issued in two logs, one after the other. -/
theorem issuedLoads_append (log more : List Entry) :
    issuedLoads (log ++ more) = issuedLoads log ++ issuedLoads more := List.filterMap_append

/-- The loads applied in two logs, one after the other. -/
theorem appliedLoads_append (log more : List Entry) :
    appliedLoads (log ++ more) = appliedLoads log ++ appliedLoads more := List.filterMap_append

/-- Loads that were called off add up. -/
theorem calledOff_append (log more : List Entry) :
    calledOff (log ++ more) = calledOff log + calledOff more := by
  rw [calledOff, List.map_append, List.sum_append]
  rfl

/-- Loads that landed add up. -/
theorem landed_append (log more : List Entry) :
    landed (log ++ more) = landed log + landed more := by
  rw [landed, outcomes, List.filterMap_append, List.countP_append]
  rfl

/-- Loads that are issued are logged as issued. -/
theorem issuedLoads_issued (loads : List Nat) : issuedLoads (loads.map .issued) = loads := by
  rw [issuedLoads, List.filterMap_map]
  exact List.filterMap_some

/-- They are not logged as applied. -/
theorem appliedLoads_issued (loads : List Nat) : appliedLoads (loads.map .issued) = [] :=
  List.filterMap_eq_nil_iff.2 fun _ he => by
    obtain ⟨n, -, rfl⟩ := List.mem_map.1 he
    rfl

/-- They are not logged as called off. -/
theorem calledOff_issued (loads : List Nat) : calledOff (loads.map .issued) = 0 := by
  induction loads with
  | nil => rfl
  | cons n loads ih => exact (Nat.zero_add _).trans ih

/-- They are not logged as landed. -/
theorem landed_issued (loads : List Nat) : landed (loads.map .issued) = 0 := by
  induction loads with
  | nil => rfl
  | cons n loads ih => exact ih

/-- What all satisfies a predicate belongs to the last elements that do. -/
theorem rtakeWhile_append_of_pos {α : Type} {p : α → Bool} {l more : List α}
    (h : ∀ a ∈ more, p a = true) : (l ++ more).rtakeWhile p = l.rtakeWhile p ++ more := by
  have hall : ∀ a ∈ more.reverse, p a = true := fun a ha => h a (List.mem_reverse.1 ha)
  rw [List.rtakeWhile, List.reverse_append, List.takeWhile_append_of_pos hall,
    List.reverse_append, List.reverse_reverse]
  rfl

/-- Entries that are no clearings all belong to the latest. -/
theorem latest_append {more : List Entry} (quiet : ∀ e ∈ more, e.clears = false) :
    latest (log ++ more) = latest log ++ more :=
  rtakeWhile_append_of_pos fun e he => by rw [quiet e he, Bool.not_false]

/-- Right after a clearing nothing was logged since. -/
theorem latest_cleared : latest (log ++ [.cleared report]) = [] :=
  List.rtakeWhile_concat_neg _ _ _ Bool.false_ne_true

/-- Loads that were not applied before are outstanding once they are issued. -/
theorem outstanding_issued (fresh : ∀ n ∈ loads, n ∉ appliedLoads log) :
    outstanding (log ++ loads.map .issued) = outstanding log ++ loads := by
  have quiet : ∀ e ∈ loads.map Entry.issued, e.clears = false := fun e he => by
    obtain ⟨n, -, rfl⟩ := List.mem_map.1 he
    rfl
  have hfresh : loads.filter (fun n => n ∉ appliedLoads log) = loads :=
    List.filter_eq_self.2 fun n hn => decide_eq_true (fresh n hn)
  rw [outstanding, latest_append quiet, issuedLoads_append, issuedLoads_issued,
    appliedLoads_append, appliedLoads_issued, List.append_nil, List.filter_append, hfresh]
  rfl

/-- A clearing leaves nothing outstanding. -/
theorem outstanding_cleared : outstanding (log ++ [.cleared report]) = [] := by
  rw [outstanding, latest_cleared]
  rfl

/-- A load that is applied is outstanding no more. -/
theorem outstanding_applied :
    outstanding (log ++ [.applied n x]) = (outstanding log).filter (· != n) := by
  have quiet : ∀ e ∈ [Entry.applied n x], e.clears = false := List.forall_mem_singleton.2 rfl
  have hissued : issuedLoads [.applied n x] = [] := rfl
  have happlied : appliedLoads [.applied n x] = [n] := rfl
  rw [outstanding, latest_append quiet, issuedLoads_append, hissued, List.append_nil,
    appliedLoads_append, happlied, outstanding, List.filter_filter]
  refine List.filter_congr fun m _ => ?_
  rw [Bool.eq_iff_iff]
  simp [and_comm]

end Append

/-! ### The account in balance -/

/-- The account of a store agrees with the log of a run and with the loads that are held,
which are those not applied yet: what is under way is what the log says, a load that is held
is under way unless it is late, and every load ever issued is counted once. -/
structure Balanced (l : Store.Ledger) (held : List Errand) (log : List Entry) : Prop where
  issued : issuedLoads log = List.range l.nextLoad
  inFlight : l.inFlight.Perm (outstanding log)
  applied_lt : ∀ n ∈ appliedLoads log, n < l.nextLoad
  distinct : (held.map (·.load)).Nodup
  pending : ∀ e ∈ held, e.generation = l.generation → e.load ∈ l.inFlight
  total : l.nextLoad = l.inFlight.length + calledOff log + landed log

section Balanced

variable {l : Store.Ledger} {held more rest : List Errand} {log : List Entry} {e : Errand}
  {x : Outcome} {report : Disposal}

/-- An account without loads is balanced. -/
theorem balanced_start : Balanced ⟨[], [], 0, 0⟩ [] [] where
  issued := rfl
  inFlight := .refl _
  applied_lt := List.forall_mem_nil _
  distinct := List.nodup_nil
  pending := List.forall_mem_nil _
  total := rfl

/-- The order in which loads are held does not matter. -/
theorem Balanced.perm (balanced : Balanced l held log) (perm : held.Perm rest) :
    Balanced l rest log :=
  { balanced with
    distinct := (perm.map _).nodup_iff.1 balanced.distinct
    pending := fun e he => balanced.pending e (perm.symm.subset he) }

/-- No number is issued twice. -/
theorem Balanced.nodup_issued (balanced : Balanced l held log) : (issuedLoads log).Nodup :=
  balanced.issued ▸ List.nodup_range

/-- No number is in flight twice. -/
theorem Balanced.nodup_inFlight (balanced : Balanced l held log) : l.inFlight.Nodup := by
  have hlatest : (issuedLoads (latest log)).Sublist (issuedLoads log) :=
    (List.rtakeWhile_suffix _ log).sublist.filterMap _
  exact balanced.inFlight.nodup_iff.2
    ((balanced.nodup_issued.sublist hlatest).sublist List.filter_sublist)

/-- **New loads** get the next numbers, and are under way. -/
theorem Balanced.issue (balanced : Balanced l held log) (known : ∀ e ∈ held, e.load < l.nextLoad)
    (loads : more.map (·.load) = List.range' l.nextLoad more.length) :
    Balanced (l.enter more.length) (held ++ more)
      (log ++ (more.map (·.load)).map .issued) where
  issued := by
    have happend := List.range'_append_1 (s := 0) (m := l.nextLoad) (n := more.length)
    rw [Nat.zero_add] at happend
    rw [issuedLoads_append, issuedLoads_issued, balanced.issued, loads, List.range_eq_range',
      List.range_eq_range', happend]
    rfl
  inFlight := by
    have fresh : ∀ n ∈ more.map (·.load), n ∉ appliedLoads log := fun n hn happlied => by
      rw [loads, List.mem_range'_1] at hn
      exact absurd (balanced.applied_lt n happlied) (Nat.not_lt.2 hn.1)
    rw [outstanding_issued fresh, loads]
    exact List.perm_append_comm.trans
      (balanced.inFlight.append (List.reverse_perm _))
  applied_lt := by
    rw [appliedLoads_append, appliedLoads_issued, List.append_nil]
    exact fun n hn => Nat.lt_add_right _ (balanced.applied_lt n hn)
  distinct := by
    rw [List.map_append, loads]
    refine List.nodup_append.2 ⟨balanced.distinct, List.nodup_range', ?_⟩
    rintro n hheld _ hmore rfl
    obtain ⟨e, he, rfl⟩ := List.mem_map.1 hheld
    exact absurd (known e he) (Nat.not_lt.2 (List.mem_range'_1.1 hmore).1)
  pending := by
    intro e he hgeneration
    rcases List.mem_append.1 he with he | he
    · exact List.mem_append_right _ (balanced.pending e he hgeneration)
    · refine List.mem_append_left _ (List.mem_reverse.2 ?_)
      rw [← loads]
      exact List.mem_map_of_mem he
  total := by
    have hlength : (l.enter more.length).inFlight.length = more.length + l.inFlight.length := by
      rw [Store.Ledger.enter, List.length_append, List.length_reverse, List.length_range']
    rw [calledOff_append, calledOff_issued, landed_append, landed_issued, hlength]
    have hnext : (l.enter more.length).nextLoad = l.nextLoad + more.length := rfl
    have htotal := balanced.total
    omega

/-- **A clearing** calls off what is under way, and reports how much that is. What is held
is late from then on. -/
theorem Balanced.clear (balanced : Balanced l held log)
    (known : ∀ e ∈ held, e.generation ≤ l.generation) (reported : report.loads = l.inFlight.length) :
    Balanced l.clear held (log ++ [.cleared report]) where
  issued := by
    rw [issuedLoads_append, balanced.issued]
    exact List.append_nil _
  inFlight := by
    rw [outstanding_cleared]
    exact .refl _
  applied_lt := by
    rw [appliedLoads_append]
    exact fun n hn => balanced.applied_lt n ((List.append_nil _).subst hn)
  distinct := balanced.distinct
  pending e he hgeneration :=
    absurd (known e he) (Nat.not_le.2 (hgeneration ▸ Nat.lt_succ_self l.generation))
  total := by
    have hlog : calledOff [.cleared report] = report.loads := Nat.add_zero _
    have hlanded : landed [.cleared report] = 0 := rfl
    have htotal := balanced.total
    rw [calledOff_append, landed_append, hlog, hlanded, reported]
    have hnext : l.clear.nextLoad = l.nextLoad := rfl
    have hempty : l.clear.inFlight.length = 0 := rfl
    omega

/-- A number that is under way is so once. -/
theorem length_filter_ne {ns : List Nat} (nodup : ns.Nodup) {n : Nat} (hn : n ∈ ns) :
    (ns.filter (· != n)).length + 1 = ns.length := by
  rw [← nodup.erase_eq_filter, List.length_erase_of_mem hn]
  exact Nat.sub_add_cancel (List.length_pos_of_mem hn)

/-- **An application** finishes the load that is applied and no other, as those that are held
have other numbers. A late load is not under way, so then it finishes nothing. -/
theorem Balanced.finish (balanced : Balanced l held log) (taken : held.Perm (e :: rest))
    (issued : l.Issued e) (late_iff : x.IsDiscarded ↔ e.generation < l.generation) :
    Balanced (l.finish e.load) rest (log ++ [.applied e.load x]) where
  issued := by
    rw [issuedLoads_append, balanced.issued]
    exact List.append_nil _
  inFlight := by
    rw [outstanding_applied]
    exact balanced.inFlight.filter _
  applied_lt := by
    rw [appliedLoads_append]
    intro n hn
    rcases List.mem_append.1 hn with hn | hn
    · exact balanced.applied_lt n hn
    · obtain rfl := List.mem_singleton.1 hn
      exact issued.load_lt
  distinct := ((balanced.perm taken).distinct).of_cons
  pending := by
    intro e' he' hgeneration
    have hne : e'.load ≠ e.load := fun heq => by
      have hcons := (balanced.perm taken).distinct
      rw [List.map_cons, List.nodup_cons] at hcons
      exact hcons.1 (heq ▸ List.mem_map_of_mem he')
    have hpending := balanced.pending e' (taken.symm.subset (List.mem_cons_of_mem _ he')) hgeneration
    exact List.mem_filter.2 ⟨hpending, bne_iff_ne.2 hne⟩
  total := by
    have hcalled : calledOff [.applied e.load x] = 0 := rfl
    have hnext : (l.finish e.load).nextLoad = l.nextLoad := rfl
    have htotal := balanced.total
    rw [calledOff_append, landed_append, hcalled, hnext]
    by_cases late : e.generation < l.generation
    · have hlanded : landed [.applied e.load x] = 0 := by
        simp [landed, outcomes, Entry.outcome?, late_iff.2 late]
      have hidle : (l.finish e.load).inFlight = l.inFlight :=
        List.filter_eq_self.2 fun n hn => bne_iff_ne.2 fun heq => issued.stale late (heq ▸ hn)
      rw [hlanded, hidle]
      omega
    · have hlanded : landed [.applied e.load x] = 1 := by
        simp [landed, outcomes, Entry.outcome?, late_iff, late]
      have hgeneration : e.generation = l.generation :=
        Nat.le_antisymm issued.generation_le (Nat.not_lt.1 late)
      have hmem := balanced.pending e (taken.symm.subset List.mem_cons_self) hgeneration
      have hlength : (l.finish e.load).inFlight.length + 1 = l.inFlight.length :=
        length_filter_ne balanced.nodup_inFlight hmem
      rw [hlanded]
      omega

end Balanced

/-! ### What a stage holds -/

/-- The loads that a stage holds: those that its headings wait for, and those that are over
but not applied. -/
def Stage.held (w : Stage) : List Errand :=
  (w.headings.flatMap fun h => h.loads.map (·.errand)) ++ w.taken.map (·.2.errand)

namespace Stage

variable {w : Stage} {i : Nat} {h : Heading} {e : Errand}

/-- What a stage holds is waited for by some heading. -/
theorem exists_awaits_of_mem_held (he : e ∈ w.held) : ∃ i, w.Awaits i e := by
  rcases List.mem_append.1 he with he | he
  · obtain ⟨h, hmem, he⟩ := List.mem_flatMap.1 he
    obtain ⟨i, here⟩ := List.mem_iff_getElem?.1 hmem
    exact ⟨i, .inl ⟨h, here, he⟩⟩
  · obtain ⟨⟨i, d⟩, hmem, rfl⟩ := List.mem_map.1 he
    exact ⟨i, .inr ⟨d, hmem, rfl⟩⟩

/-- What a heading waits for is held by the stage. -/
theorem mem_held_of_awaits (held : w.Awaits i e) : e ∈ w.held := by
  rcases held with ⟨h, here, he⟩ | ⟨d, hmem, rfl⟩
  · exact List.mem_append_left _
      (List.mem_flatMap.2 ⟨h, List.mem_of_getElem? here, he⟩)
  · exact List.mem_append_right _ (List.mem_map.2 ⟨(i, d), hmem, rfl⟩)

/-- What a stage holds was issued by its store. -/
theorem Sound.issued_of_mem_held (sound : w.Sound) (he : e ∈ w.held) : w.store.ledger.Issued e := by
  obtain ⟨i, held⟩ := exists_awaits_of_mem_held he
  exact sound.issued i e held

/-- A heading that is hung brings its loads. -/
theorem held_hang (w : Stage) (r : Heading × List Event × Store) :
    (w.held ++ r.1.loads.map (·.errand)).Perm (w.hang r).held := by
  rw [held, held, hang, List.flatMap_append, List.flatMap_singleton, List.append_assoc,
    List.append_assoc]
  exact List.perm_append_comm.append_left _

/-- The loads of one heading apart from those of the others. -/
theorem perm_flatMap_set {hs : List Heading} (here : hs[i]? = some h) (f : Heading → List Errand)
    (k : Heading) : ((hs.set i k).flatMap f).Perm (f k ++ (hs.eraseIdx i).flatMap f) := by
  obtain ⟨hlt, -⟩ := List.getElem?_eq_some_iff.1 here
  exact (List.set_perm_cons_eraseIdx hlt k).flatMap_right f

/-- What one heading holds, and what the others do, is all there is. -/
theorem perm_flatMap {hs : List Heading} (here : hs[i]? = some h) (f : Heading → List Errand) :
    (hs.flatMap f).Perm (f h ++ (hs.eraseIdx i).flatMap f) := by
  have hperm := perm_flatMap_set here f h
  obtain ⟨hlt, rfl⟩ := List.getElem?_eq_some_iff.1 here
  rwa [List.set_getElem_self] at hperm

/-- Taking a load moves it from its heading to those that are over. -/
theorem held_take {after : Heading} {d : Delivery} (here : w.headings[i]? = some h)
    (yields : h.Yields w.store d after) :
    w.held.Perm (held ⟨w.store, w.headings.set i after, (i, d) :: w.taken⟩) := by
  have before := perm_flatMap here fun h => h.loads.map (·.errand)
  have behind := perm_flatMap_set here (fun h => h.loads.map (·.errand)) after
  have hqueue := yields.queue.symm.append_right
    ((w.headings.eraseIdx i).flatMap fun h => h.loads.map (·.errand))
  have hmove : w.held.Perm (d.errand :: ((w.headings.set i after).flatMap
      (fun h => h.loads.map (·.errand)) ++ w.taken.map (·.2.errand))) :=
    ((before.trans hqueue).trans (behind.symm.cons _)).append_right _
  exact hmove.trans List.perm_middle.symm

/-- Applying a load drops it, and leaves all others where they are. -/
theorem held_put {j : Nat} {d : Delivery} {taken : List (Nat × Delivery)}
    (own : w.taken.Perm ((j, d) :: taken)) (here : w.headings[i]? = some h) :
    w.held.Perm (d.errand :: (w.put i (h.apply d w.store) taken).held) := by
  have before := perm_flatMap here fun h => h.loads.map (·.errand)
  have behind := perm_flatMap_set here (fun h => h.loads.map (·.errand)) (h.apply d w.store).2.2.1
  have hsame : (h.apply d w.store).2.2.1.loads = h.loads := by rw [Heading.apply_heading]
  rw [hsame] at behind
  exact ((before.trans behind.symm).append (own.map (·.2.errand))).trans List.perm_middle

end Stage

/-! ### Balance over a run -/

section Step

variable {w w' : Stage} {a : Act} {past : List Entry}

/-- **A heading that is set** balances its loads with their issue. -/
theorem Balanced.hang (balanced : Balanced w.store.ledger w.held past) (sound : w.Sound)
    (o : Options) (loader : Loader) (leaves : List Leaf) :
    Balanced (w.hang (ofLeaves o loader leaves w.store)).store.ledger
      (w.hang (ofLeaves o loader leaves w.store)).held
      (past ++ issues (ofLeaves o loader leaves w.store).1) := by
  have hledger := ledger_ofLeaves o loader leaves w.store
  rw [← length_errands_ofLeaves o loader leaves w.store] at hledger
  have hissues : issues (ofLeaves o loader leaves w.store).1 =
      (((ofLeaves o loader leaves w.store).1.loads.map (·.errand)).map (·.load)).map .issued := by
    rw [List.map_map, List.map_map]
    rfl
  have known : ∀ e ∈ w.held, e.load < w.store.ledger.nextLoad := fun e he =>
    (sound.issued_of_mem_held he).load_lt
  rw [hissues, Stage.hang, hledger]
  exact (balanced.issue known (map_load_ofLeaves o loader leaves w.store)).perm (held_hang w _)

/-- **A clearing** balances the loads in flight with their calling off. -/
theorem Balanced.cleared (balanced : Balanced w.store.ledger w.held past) (sound : w.Sound) :
    Balanced w.cleared.store.ledger w.cleared.held (past ++ [.cleared w.store.clear.1]) :=
  balanced.clear (fun _ he => (sound.issued_of_mem_held he).generation_le) rfl

/-- **One act** keeps the balance. -/
theorem Step.balanced (step : Step w a w') (sound : w.Sound)
    (balanced : Balanced w.store.ledger w.held past) :
    Balanced w'.store.ledger w'.held (past ++ a.entries w) := by
  cases step with
  | set o loader leaves => exact balanced.hang sound o loader leaves
  | compile o loader markup =>
    have hcleared := (balanced.cleared sound).hang sound.cleared o loader (parse (tokenize markup)).1
    rw [List.append_assoc] at hcleared
    exact hcleared
  | clear => exact balanced.cleared sound
  | take here yields =>
    rw [Act.entries, List.append_nil]
    exact balanced.perm (held_take here yields)
  | @apply i j h d taken own here =>
    have hmem : (i, d) ∈ w.taken := own.symm.subset List.mem_cons_self
    have issued : w.store.ledger.Issued d.errand := sound.issued i _ (.inr ⟨d, hmem, rfl⟩)
    have late_iff : (h.apply d w.store).1.IsDiscarded ↔
        d.errand.generation < w.store.ledger.generation :=
      isDiscarded_apply_iff.trans (sound.late_iff hmem)
    rw [Act.entries, here, put, ledger_apply]
    exact balanced.finish (held_put own here) issued late_iff

end Step

/-- **A run** keeps the balance. -/
theorem Logged.balanced {w w' : Stage} {acts : List Act} {past log : List Entry}
    (logged : Logged w acts log w') (sound : w.Sound)
    (balanced : Balanced w.store.ledger w.held past) :
    Balanced w'.store.ledger w'.held (past ++ log) := by
  induction logged generalizing past with
  | nil => exact (List.append_nil past).symm ▸ balanced
  | cons step _ ih =>
    rw [← List.append_assoc]
    exact ih (step.sound sound) (step.balanced sound balanced)

/-! ### Settling in a log -/

section Settle

variable {w : Stage} {i : Nat} {h after : Heading} {d : Delivery} {calls : Nat}

/-- The stage after a heading was settled. -/
def Stage.settled (w : Stage) (i n : Nat) (h : Heading) : Stage :=
  { w with
    store := (h.settleNext w.store.isCancelled n w.store).store
    headings := w.headings.set i (h.settleNext w.store.isCancelled n w.store).heading }

/-- Taking the next load of a heading and applying it, in a log. -/
theorem Logged.landed (here : w.headings[i]? = some h)
    (next : h.next w.store.isCancelled = some (d, after, calls)) :
    Logged w [.take i d, .apply i d i] [.applied d.errand.load (after.apply d w.store).1]
      (w.landed i d after) := by
  let midway : Stage := ⟨w.store, w.headings.set i after, (i, d) :: w.taken⟩
  have hset : midway.headings[i]? = some after :=
    List.getElem?_set_self (List.getElem?_eq_some_iff.1 here).1
  have htake : Step w (.take i d) midway := .take here (yields_next next)
  have happly : Step midway (.apply i d i) (midway.put i (after.apply d w.store) w.taken) :=
    .apply (.refl _) hset
  have hentries : (Act.apply i d i).entries midway =
      [.applied d.errand.load (after.apply d w.store).1] := by
    rw [Act.entries, hset]
    rfl
  have hlanded : midway.put i (after.apply d w.store) w.taken = w.landed i d after := by
    rw [put, List.set_set]
    rfl
  rw [hlanded] at happly
  have hlog := Logged.cons htake (.cons happly .nil)
  rwa [hentries] at hlog

/-- **Settling a heading** is a run of takes and applications of its loads, and what comes of
them is what settling returns. -/
theorem Logged.settleNext (here : w.headings[i]? = some h) (n : Nat) :
    ∃ acts log, (∀ a ∈ acts, ∃ d, a = .take i d ∨ a = .apply i d i) ∧
      Logged w acts log (w.settled i n h) ∧
      outcomes log = (h.settleNext w.store.isCancelled n w.store).outcomes := by
  induction n generalizing w h with
  | zero =>
    obtain ⟨hlt, rfl⟩ := List.getElem?_eq_some_iff.1 here
    refine ⟨[], [], List.forall_mem_nil _, ?_, rfl⟩
    rw [Stage.settled, Heading.settleNext, List.set_getElem_self]
    exact .nil
  | succ n ih =>
    rcases hnext : h.next w.store.isCancelled with _ | ⟨d, after, calls⟩
    · obtain ⟨hlt, rfl⟩ := List.getElem?_eq_some_iff.1 here
      rw [Stage.settled, settleNext_of_none hnext, List.set_getElem_self]
      exact ⟨[], [], List.forall_mem_nil _, .nil, rfl⟩
    · obtain ⟨acts, log, own, logged, houtcomes⟩ := ih (getElem?_headings_landed here d after)
      rw [isCancelled_landed] at houtcomes
      have hsettled : (w.landed i d after).settled i n (after.apply d w.store).2.2.1 =
          w.settled i (n + 1) h := by
        rw [Stage.settled, Stage.settled, isCancelled_landed, settleNext_of_some hnext]
        simp only [Stage.landed, List.set_set]
      rw [hsettled] at logged
      refine ⟨_, _, ?_, (Logged.landed here hnext).append logged, ?_⟩
      · refine List.forall_mem_append.2 ⟨?_, own⟩
        intro a ha
        rcases List.mem_pair.1 ha with rfl | rfl
        · exact ⟨d, .inl rfl⟩
        · exact ⟨d, .inr rfl⟩
      · rw [settleNext_of_some hnext]
        exact congrArg (List.cons _) houtcomes

end Settle

/-! ### The balance of a program -/

section Program

variable {w : Stage} {acts : List Act} {log : List Entry}

/-- **Loads are in balance.** A program does any acts, in any order, over one store.

No number is given to two loads. The loads under way are those issued since the last
clearing and not applied, each once; so many are pending, and a clearing would report so many
as called off and leave none. A load that is held is under way exactly if it is of the
store's generation: taking it changes nothing, applying it ends it and no other. All loads
ever issued are under way, or were called off by some clearing, or were applied and not
dropped.

Settling a heading is such a run too, of takes and applications, and what comes of them is
what it returns. -/
theorem loads_balance (logged : Logged .start acts log w) :
    (issuedLoads log).Nodup ∧
    (w.store.inFlight.Nodup ∧ w.store.inFlight.Perm (outstanding log)) ∧
    w.store.pendingLoads = (outstanding log).length ∧
    (w.store.clear.1.loads = w.store.pendingLoads ∧ w.store.clear.2.2.pendingLoads = 0) ∧
    (∀ i e, w.Awaits i e → (e.load ∈ w.store.inFlight ↔ e.generation = w.store.generation)) ∧
    (∀ i d w', Step w (.take i d) w' → w'.store.inFlight = w.store.inFlight) ∧
    (∀ i d j w', Step w (.apply i d j) w' → ∀ n,
      n ∈ w'.store.inFlight ↔ n ∈ w.store.inFlight ∧ n ≠ d.errand.load) ∧
    (issuedLoads log).length = w.store.pendingLoads + calledOff log + landed log ∧
    ∀ i h, w.headings[i]? = some h → ∃ more log',
      (∀ a ∈ more, ∃ d, a = .take i d ∨ a = .apply i d i) ∧
      Logged .start (acts ++ more) (log ++ log') (w.settled i h.pending h) ∧
      outcomes log' = (h.settle w.store.isCancelled w.store).outcomes := by
  have sound : w.Sound := logged.run.sound .start
  have balanced : Balanced w.store.ledger w.held log := logged.balanced .start balanced_start
  refine ⟨balanced.nodup_issued, ⟨balanced.nodup_inFlight, balanced.inFlight⟩,
    balanced.inFlight.length_eq, ⟨rfl, rfl⟩, ?_, ?_, ?_, ?_, ?_⟩
  · intro i e held
    refine ⟨fun hmem => ?_, balanced.pending e (mem_held_of_awaits held)⟩
    have issued := sound.issued i e held
    by_contra hne
    exact issued.stale (Nat.lt_of_le_of_ne issued.generation_le hne) hmem
  · intro i d w' step
    cases step
    rfl
  · intro i d j w' step n
    cases step with
    | @apply _ _ h _ _ own here =>
      have hinFlight : (h.apply d w.store).2.2.2.inFlight =
          w.store.inFlight.filter (· != d.errand.load) :=
        congrArg Store.Ledger.inFlight (ledger_apply d h w.store)
      rw [put, hinFlight, List.mem_filter, bne_iff_ne]
  · rw [balanced.issued, List.length_range]
    exact balanced.total
  · intro i h here
    obtain ⟨more, log', own, rest, houtcomes⟩ := Logged.settleNext here h.pending
    exact ⟨more, log', own, logged.append rest, houtcomes⟩

end Program

/-- One emote is set and its picture comes, but the store is cleared before it is applied. The one
load is counted as called off, and not again when it is dropped. -/
theorem late_load_counted_once :
    ∃ d acts log w, d.result = some (.ok ⟨"", 1, 1⟩) ∧
      acts = [.set .inkless Loader.offline [.emote "1" "white" .regular], .take 0 d, .clear,
        .apply 0 d 0] ∧
      Logged .start acts log w ∧ issuedLoads log = [0] ∧ appliedLoads log = [0] ∧
      calledOff log = 1 ∧ w.store.pendingLoads = 0 ∧ landed log = 0 := by
  let d : Delivery := ⟨⟨⟨Options.inkless.emotes.urlFor "1", "1", [0]⟩, 0, 0⟩, some (.ok ⟨"", 1, 1⟩)⟩
  let set := ofLeaves .inkless Loader.offline [.emote "1" "white" .regular] {}
  have yields : set.1.Yields set.2.2 d { set.1 with loads := [] } :=
    ⟨.refl _, rfl, fun hnone => by cases hnone⟩
  have late : Step ⟨set.2.2.clear.2.2, [{ set.1 with loads := [] }], [(0, d)]⟩ (.apply 0 d 0) _ :=
    .apply (.refl _) rfl
  have logged : Logged .start [.set .inkless Loader.offline [.emote "1" "white" .regular],
      .take 0 d, .clear, .apply 0 d 0] _ _ :=
    .cons (.set _ _ _) (.cons (.take rfl yields) (.cons .clear (.cons late .nil)))
  obtain ⟨-, -, -, -, -, -, -, htotal, -⟩ := loads_balance logged
  have hcount : 1 = Store.pendingLoads _ + 1 + landed _ := htotal
  refine ⟨d, _, _, _, rfl, rfl, logged, rfl, rfl, rfl, ?_⟩
  constructor <;> omega

end Marquee
