import Marquee.Proofs.Heading.Warned
import Marquee.Proofs.Stage.Usage

/-!
# The Warnings of a Run

Headings are set over one store by options with one family. What they report is written down,
and so are the solids that they missed; the store counts those too. The want of a face is
reported once for each solid that was missed and is of a style without a face. As nothing that was
missed is missed again before the next clearing, that is once for each key that was laid out since
the last one. An unknown color is reported for each text that names it and is not blank, whatever
the store has.

## Main statements

* `Store.Tallied.set`, `Store.Tallied.clear` — what setting a heading and clearing the store add
  to the account of the warnings;
* `Step.tallied`, `Reported.tallied` — every act, and every run, keeps to it;
* `warnings_counted` — how often either warning is reported.
-/

namespace Marquee

open Fetch Font Heading Markup Scene Stage Store

/-! ### Reports -/

/-- What an act on a stage reports. -/
def Act.events (w : Stage) : Act → List Event
  | set o loader leaves => (Heading.ofLeaves o loader leaves w.store).2.1
  | compile o loader markup => (Heading.compile o loader markup w.store).2.1
  | clear => w.store.clear.2.1
  | take _ _ => []
  | apply _ d target => (w.headings[target]?.map fun h => (h.apply d w.store).2.1).getD []

/-- The keys of solids that an act on a stage looks for in vain. -/
def Act.misses (w : Stage) : Act → List SolidKey
  | set o _ leaves => missesOf o leaves w.store
  | compile o _ markup => missesOf o (leavesOf markup) w.store.clear.2.2
  | _ => []

/-- Some acts of a program, one after the other, with what they report and the keys that they
look for in vain. -/
inductive Reported : Stage → List Act → List Event → List SolidKey → Stage → Prop
  | nil {w : Stage} : Reported w [] [] [] w
  | cons {w w₁ w₂ : Stage} {a : Act} {acts : List Act} {events : List Event}
      {misses : List SolidKey} :
      Step w a w₁ → Reported w₁ acts events misses w₂ →
        Reported w (a :: acts) (a.events w ++ events) (a.misses w ++ misses) w₂

/-- The events since the store was last cleared. -/
def sinceCleared (events : List Event) : List Event := events.rtakeWhile fun e => !e.clears

/-- The keys under which an act looks for solids. -/
def Act.keys (a : Act) : List SolidKey :=
  (a.sheet.map fun sheet => sheet.2.filterMap (keyOf? sheet.1)).getD []

/-- The keys under which some acts looked for solids since the store was last cleared. -/
def keysSince (acts : List Act) : List SolidKey :=
  acts.foldl (fun keys a => (if a.clears then [] else keys) ++ a.keys) []

section Reports

variable {w w' : Stage} {acts : List Act} {events more : List Event} {misses : List SolidKey}

/-- What is reported on is a run. -/
theorem Reported.run (reported : Reported w acts events misses w') : Run w acts w' := by
  induction reported with
  | nil => exact .nil
  | cons step _ ih => exact .cons step ih

/-- Every run reports something, if nothing but an empty list. -/
theorem Run.exists_reported (run : Run w acts w') :
    ∃ events misses, Reported w acts events misses w' := by
  induction run with
  | nil => exact ⟨[], [], .nil⟩
  | cons step _ ih =>
    obtain ⟨events, misses, rest⟩ := ih
    exact ⟨_, _, .cons step rest⟩

/-- More reports without a clearing add to those since the last one. -/
theorem sinceCleared_append (quiet : ∀ e ∈ more, ¬ e.clears) :
    sinceCleared (events ++ more) = sinceCleared events ++ more :=
  rtakeWhile_append_of_pos fun e he => by rw [Bool.eq_false_iff.2 (quiet e he), Bool.not_false]

/-- Right after a clearing nothing was reported since. -/
theorem sinceCleared_clear (s : Store) : sinceCleared (events ++ s.clear.2.1) = [] :=
  List.rtakeWhile_concat_neg _ _ _ Bool.false_ne_true

/-- One more act adds the keys that it looks for, and a clearing drops those before. -/
theorem keysSince_concat (acts : List Act) (a : Act) :
    keysSince (acts ++ [a]) = (if a.clears then [] else keysSince acts) ++ a.keys := by
  rw [keysSince, List.foldl_concat]
  rfl

end Reports

/-! ### The account of the warnings -/

/-- The account of a store agrees with what was laid out over it, with the keys that were looked
for since the last clearing, with what was reported and with what was missed. -/
structure Store.Tallied (fonts : Family) (s : Store) (laid : List Leaf) (keys : List SolidKey)
    (events : List Event) (misses : List SolidKey) : Prop where
  usage : s.geometries.usage.misses = misses.length
  faces : faces events = (misses.filter (fonts.lacks ·.style)).map (·.style)
  unknowns : unknowns events = laid.filterMap unknownIn
  /-- Since the last clearing, when the shelf was empty. -/
  since : ∃ (t : Shelf SolidKey TextGeometry) (new : List SolidKey), (∀ k, t.get? k = none) ∧
    t.Missed s.geometries keys new ∧
    Marquee.faces (sinceCleared events) = (new.filter (fonts.lacks ·.style)).map (·.style)

/-- An event that is neither of the two warnings and reports no clearing. -/
structure Event.Plain (e : Event) : Prop where
  face : e.face? = none
  unknown : e.unknown? = none
  quiet : ¬ e.clears

namespace Store

variable {fonts : Family} {s t : Store} {laid : List Leaf} {keys misses : List SolidKey}
  {events more : List Event}

/-- A new store has nothing to account for. -/
theorem tallied_start (fonts : Family) : Tallied fonts {} [] [] [] [] :=
  ⟨rfl, rfl, rfl, {}, [], fun _ => rfl, .refl _, rfl⟩

/-- Only solids matter. -/
theorem Tallied.of_eq (tallied : s.Tallied fonts laid keys events misses)
    (geometries : t.geometries = s.geometries) : t.Tallied fonts laid keys events misses :=
  ⟨geometries ▸ tallied.usage, tallied.faces, tallied.unknowns, geometries ▸ tallied.since⟩

/-- Other reports change nothing. -/
theorem Tallied.tell (tallied : s.Tallied fonts laid keys events misses)
    (plain : ∀ e ∈ more, e.Plain) : s.Tallied fonts laid keys (events ++ more) misses := by
  have hfaces : Marquee.faces more = [] := List.filterMap_eq_nil_iff.2 fun e he => (plain e he).face
  have hunknowns : Marquee.unknowns more = [] :=
    List.filterMap_eq_nil_iff.2 fun e he => (plain e he).unknown
  obtain ⟨t, new, hempty, hmissed, hsince⟩ := tallied.since
  refine ⟨tallied.usage, ?_, ?_, t, new, hempty, hmissed, ?_⟩
  · rw [faces_append, hfaces, List.append_nil, tallied.faces]
  · rw [unknowns_append, hunknowns, List.append_nil, tallied.unknowns]
  · rw [sinceCleared_append fun e he => (plain e he).quiet, faces_append, hfaces, List.append_nil,
      hsince]

/-- **A clearing** begins anew. -/
theorem Tallied.clear (tallied : s.Tallied fonts laid keys events misses) :
    s.clear.2.2.Tallied fonts laid [] (events ++ s.clear.2.1) misses where
  usage := tallied.usage
  faces := by
    rw [faces_append, tallied.faces]
    exact List.append_nil _
  unknowns := by
    rw [unknowns_append, tallied.unknowns]
    exact List.append_nil _
  since := by
    refine ⟨s.clear.2.2.geometries, [], s.geometries.get?_clear, .refl _, ?_⟩
    rw [sinceCleared_clear]
    rfl

/-- **A heading that is set** warns of the faces that it lacks for what it missed, and of the
unknown colors in its texts. -/
theorem Tallied.set {o : Options} (tallied : s.Tallied o.fonts laid keys events misses)
    (loader : Loader) (leaves : List Leaf) :
    (ofLeaves o loader leaves s).2.2.Tallied o.fonts (laid ++ leaves)
      (keys ++ leaves.filterMap (keyOf? o)) (events ++ (ofLeaves o loader leaves s).2.1)
      (misses ++ missesOf o leaves s) := by
  obtain ⟨hmissed, hfaces, hquiet⟩ := told_ofLeaves o loader leaves s
  obtain ⟨t, new, hempty, hbefore, hsince⟩ := tallied.since
  refine ⟨?_, ?_, ?_, t, _, hempty, hbefore.trans hmissed, ?_⟩
  · rw [hmissed.usage, tallied.usage, List.length_append]
  · rw [faces_append, tallied.faces, hfaces, List.filter_append, List.map_append]
  · rw [unknowns_append, tallied.unknowns, unknowns_ofLeaves, List.filterMap_append]
  · rw [sinceCleared_append hquiet, faces_append, hsince, hfaces, List.filter_append,
      List.map_append]

end Store

/-- A pass reports its beginning and the markers left open, and warns of neither. -/
theorem Heading.plain_read (tokens : List Token) (released : Disposal) :
    ∀ e ∈ [.passStarted released, .markupSplit tokens.length] ++ (parse tokens).2, e.Plain := by
  have hbegin : ∀ e ∈ [Event.passStarted released, .markupSplit tokens.length], e.Plain :=
    List.forall_mem_cons.2 ⟨⟨rfl, rfl, Bool.false_ne_true⟩,
      List.forall_mem_singleton.2 ⟨rfl, rfl, Bool.false_ne_true⟩⟩
  have hread : (parse tokens).2 = Reader.openMarkers _ := rfl
  refine List.forall_mem_append.2 ⟨hbegin, ?_⟩
  rw [hread, Reader.openMarkers]
  split
  · exact List.forall_mem_nil _
  · exact List.forall_mem_singleton.2 ⟨rfl, rfl, Bool.false_ne_true⟩

/-- An application may report that it failed or came too late. -/
theorem Heading.plain_apply (h : Heading) (d : Delivery) (s : Store) :
    ∀ e ∈ (h.apply d s).2.1, e.Plain := by
  by_cases late : Late d s
  · rw [apply_of_late late]
    exact List.forall_mem_singleton.2 ⟨rfl, rfl, Bool.false_ne_true⟩
  · obtain ⟨hgen, e | t, hresult⟩ := not_late_iff.1 late
    · rw [apply_of_error hgen hresult]
      exact List.forall_mem_singleton.2 ⟨rfl, rfl, Bool.false_ne_true⟩
    · rw [apply_of_ok hgen hresult]
      exact List.forall_mem_nil _

section Run

variable {w w' : Stage} {a : Act} {acts past : List Act} {events before : List Event}
  {misses missed : List SolidKey} {fonts : Family}

/-- The account of a stage, by the acts that led to it. -/
def Stage.Tallied (fonts : Family) (past : List Act) (events : List Event)
    (misses : List SolidKey) (w : Stage) : Prop :=
  w.store.Tallied fonts (laidOut past) (keysSince past) events misses

/-- An act that neither sets a heading nor clears the store, and reports nothing that counts. -/
theorem Stage.Tallied.pass (tallied : w.Tallied fonts past before missed) (sheet : a.sheet = none)
    (quiet : a.clears = false) (misses : a.misses w = []) (plain : ∀ e ∈ a.events w, e.Plain)
    (geometries : w'.store.geometries = w.store.geometries) :
    w'.Tallied fonts (past ++ [a]) (before ++ a.events w) (missed ++ a.misses w) := by
  have hleaves : laidOut [a] = [] := by
    rw [laidOut, List.filterMap_cons, sheet]
    rfl
  have hkeys : a.keys = [] := by
    rw [Act.keys, sheet]
    rfl
  rw [Stage.Tallied, laidOut_append, keysSince_concat, hleaves, hkeys, quiet, misses,
    List.append_nil, List.append_nil, List.append_nil]
  exact (tallied.tell plain).of_eq geometries

/-- **One act** keeps to the account. A pass is a clearing, some reports that do not count, and a
heading that is set. -/
theorem Step.tallied (step : Step w a w') (shares : a.Shares fonts fun _ => True)
    (tallied : w.Tallied fonts past before missed) :
    w'.Tallied fonts (past ++ [a]) (before ++ a.events w) (missed ++ a.misses w) := by
  cases step with
  | set o loader leaves =>
    obtain ⟨rfl, -⟩ := shares o leaves rfl
    have hleaves : laidOut [.set o loader leaves] = leaves := List.append_nil leaves
    rw [Stage.Tallied, laidOut_append, keysSince_concat, hleaves]
    exact tallied.set loader leaves
  | compile o loader markup =>
    obtain ⟨rfl, -⟩ := shares o (leavesOf markup) rfl
    have hleaves : laidOut [.compile o loader markup] = leavesOf markup := List.append_nil _
    have hevents : Act.events w (.compile o loader markup) = w.store.clear.2.1 ++
        ([.passStarted w.store.clear.1, .markupSplit (tokenize markup).length] ++
          (parse (tokenize markup)).2) ++
        (ofLeaves o loader (leavesOf markup) w.store.clear.2.2).2.1 := rfl
    rw [Stage.Tallied, laidOut_append, keysSince_concat, hleaves, hevents, ← List.append_assoc,
      ← List.append_assoc]
    exact (tallied.clear.tell (plain_read _ _)).set loader (leavesOf markup)
  | clear =>
    have hleaves : laidOut [.clear] = [] := rfl
    have hmisses : Act.misses w .clear = [] := rfl
    rw [Stage.Tallied, laidOut_append, keysSince_concat, hleaves, hmisses, List.append_nil,
      List.append_nil]
    exact tallied.clear
  | take => exact tallied.pass rfl rfl rfl (List.forall_mem_nil _) rfl
  | @apply i j h d taken own here =>
    refine tallied.pass rfl rfl rfl ?_ (shelves_apply h d w.store).1
    rw [Act.events, here]
    exact plain_apply h d w.store

/-- **A run** keeps to the account. -/
theorem Reported.tallied (reported : Reported w acts events misses w')
    (shares : ∀ a ∈ acts, a.Shares fonts fun _ => True)
    (tallied : w.Tallied fonts past before missed) :
    w'.Tallied fonts (past ++ acts) (before ++ events) (missed ++ misses) := by
  induction reported generalizing past before missed with
  | nil =>
    rw [List.append_nil, List.append_nil, List.append_nil]
    exact tallied
  | @cons _ _ _ a acts _ _ step _ ih =>
    obtain ⟨hfirst, hrest⟩ := List.forall_mem_cons.1 shares
    rw [← List.singleton_append, ← List.append_assoc, ← List.append_assoc, ← List.append_assoc]
    exact ih hrest (step.tallied hfirst tallied)

end Run

/-! ### The count -/

/-- A color is unknown if its name is not in the palette. -/
theorem Color.ofName?_eq_none_iff {name : String} :
    Color.ofName? name = none ↔ name ∉ Color.palette.map (·.1) := by
  rw [ofName?, List.lookup_eq_none_iff, List.mem_map, not_exists]
  constructor
  · rintro h p ⟨hp, rfl⟩
    exact absurd rfl (bne_iff_ne.1 (h p hp))
  · exact fun h p hp => bne_iff_ne.2 fun heq => h p ⟨hp, heq.symm⟩

/-- A text that is not blank is reported if its color is outside the palette. -/
theorem Heading.isSome_unknownIn (leaf : Leaf) : (unknownIn leaf).isSome =
    decide (leaf.isRun ∧ leaf.color ∉ Color.palette.map (·.1)) := by
  cases leaf with
  | text value name style =>
    rw [Bool.eq_iff_iff, decide_eq_true_iff, ← Color.ofName?_eq_none_iff, unknownIn,
      Text.isEmpty_core, Leaf.isRun, Leaf.color]
    cases value.toList.all Text.isBlank <;> cases Color.ofName? name <;> simp
  | emote id name style => rfl

/-- A blank text or an emote looks for no solid. -/
theorem Heading.keyOf?_eq_none {leaf : Leaf} (o : Options) (blank : ¬ leaf.isRun) :
    keyOf? o leaf = none := by
  cases leaf with
  | text value name style =>
    rw [keyOf?, Text.isEmpty_core, if_pos]
    simpa [Leaf.isRun] using blank
  | emote id name style => rfl

/-- **Warnings are counted exactly.** A program does any acts, in any order, over one new store;
its headings are set by any options with one family.

The want of a face is reported as often as a solid was missed of a style that the family lacks.
Since the last clearing that is once for each key of such a style which was laid out, however
often. An unknown color is reported as often as a text was laid out which is not blank and has a
color outside the palette. A blank text or an emote reports nothing while it is laid out, and
leaves the solids as they are. -/
theorem warnings_counted {acts : List Act} {events : List Event} {misses : List SolidKey}
    {w : Stage} {fonts : Family} (reported : Reported .start acts events misses w)
    (shares : ∀ a ∈ acts, a.Shares fonts fun _ => True) :
    (w.store.geometries.usage.misses = misses.length ∧
      events.countP (Event.warns "no face for style, using regular") =
        misses.countP (fonts.lacks ·.style)) ∧
    (sinceCleared events).countP (Event.warns "no face for style, using regular") =
      ((keysSince acts).filter (fonts.lacks ·.style)).dedup.length ∧
    events.countP (Event.warns "unknown color name, using white") =
      (laidOut acts).countP (fun leaf => leaf.isRun ∧ leaf.color ∉ Color.palette.map (·.1)) ∧
    ∀ (o : Options) (d : Draft) leaf, ¬ leaf.isRun →
      (d.add o leaf).events = d.events ∧
        (d.add o leaf).store.geometries = d.store.geometries := by
  have start : Stage.start.Tallied fonts [] [] [] := tallied_start fonts
  obtain ⟨husage, hfaces, hunknowns, t, new, hempty, hmissed, hsince⟩ :
    w.store.Tallied fonts (laidOut acts) (keysSince acts) events misses :=
      reported.tallied shares start
  refine ⟨⟨husage, ?_⟩, ?_, ?_, fun o d leaf blank => ?_⟩
  · rw [countP_warns_face, hfaces, List.length_map, List.countP_eq_length_filter]
  · rw [countP_warns_face, hsince, List.length_map]
    exact hmissed.length_filter hempty _
  · rw [countP_warns_unknown, hunknowns, List.length_filterMap_eq_countP]
    exact List.countP_congr fun leaf _ => by rw [isSome_unknownIn]
  · have hkey := keyOf?_eq_none o blank
    rcases Draft.geometries_add o d leaf with ⟨-, hsame⟩ | ⟨k, make, hsome, -⟩
    · refine ⟨?_, hsame⟩
      rw [Draft.events_add, hkey, List.append_nil]
    · rw [hkey] at hsome
      cases hsome

/-- A text in italics is set twice, once between blanks, in a color that the palette has by another
name, by options with a regular face alone. The want of a face is reported the first time, and the
color both times. -/
theorem face_reported_once :
    ∃ events misses w, Reported .start
        [.set .inkless Loader.offline [.text "g" "white" .italic],
          .set .inkless Loader.offline [.text " g " "white" .italic]] events misses w ∧
      (sinceCleared events).countP (Event.warns "no face for style, using regular") = 1 ∧
      events.countP (Event.warns "unknown color name, using white") = 2 := by
  have shares : ∀ value, (Act.set .inkless Loader.offline [.text value "white" .italic]).Shares
      Options.inkless.fonts fun _ => True := by
    rintro value o leaves hsheet
    cases hsheet
    exact ⟨rfl, trivial⟩
  have reported : Reported .start [.set .inkless Loader.offline [.text "g" "white" .italic],
      .set .inkless Loader.offline [.text " g " "white" .italic]] _ _ _ :=
    .cons (.set _ _ _) (.cons (.set _ _ _) .nil)
  obtain ⟨-, hfaces, hcolors, -⟩ := warnings_counted reported
    (List.forall_mem_cons.2 ⟨shares "g", List.forall_mem_singleton.2 (shares " g ")⟩)
  let k := SolidKey.of "g" .italic Options.inkless.geometry
  have hkeys : keysSince [.set .inkless Loader.offline [.text "g" "white" .italic],
      .set .inkless Loader.offline [.text " g " "white" .italic]] = [k, k] := rfl
  have hlacking : [k, k].filter (Options.inkless.fonts.lacks ·.style) = [k, k] := rfl
  refine ⟨_, _, _, reported, hfaces.trans ?_, hcolors⟩
  rw [hkeys, hlacking, List.dedup_cons_of_mem List.mem_cons_self, (List.nodup_singleton k).dedup]
  rfl

end Marquee
