import Marquee.Proofs.Heading.Painted
import Marquee.Proofs.Store.Missed

/-!
# What a Heading Warns Of

A face is chosen when a solid is built, and a solid is built when it is missed. So the want of a
face is reported for each solid that was missed, and not for one that is there; a color is looked
for every time. Nothing else gives rise to either warning, and a blank text or an emote to no
report at all.

## Main statements

* `Family.select_lacks` — for which styles the regular face is taken in place of another;
* `Draft.events_add` — what one more leaf reports;
* `Draft.told_add`, `told_ofLeaves` — the solids that a leaf, and all of a heading, missed, and
  the faces that were wanting for them.
-/

namespace Marquee

open Fetch Markup Scene Store

/-! ### Faces that are wanting -/

/-- The styles whose faces do for a style, in the order in which they are tried. -/
def Style.chain : Style → List Style
  | .boldItalic => [.boldItalic, .bold, .italic]
  | style => [style]

namespace Font.Family

/-- The face made for a style. -/
def ofStyle? (f : Family) : Style → Option Face
  | .regular => some f.regular
  | .italic => f.italic
  | .bold => f.bold
  | .boldItalic => f.boldItalic

/-- Whether the regular face has to do for a style, as none of its own chain is there. -/
def lacks (f : Family) (style : Style) : Bool := style.chain.all fun s => (f.ofStyle? s).isNone

/-- **A face is reported as wanting** for a style that the family lacks. -/
theorem select_lacks (f : Family) (style : Style) :
    (f.select style).2 = if f.lacks style then [.faceMissing style f.regular.name] else [] := by
  have hlacks : f.own? style = none ∧ style ≠ .regular ↔ f.lacks style := by
    cases style <;> simp [own?, lacks, Style.chain, ofStyle?]
  rw [select_events]
  simp only [hlacks]

end Font.Family

namespace Event

/-- Whether an event is a warning of some wording. -/
def warns (wording : String) (e : Event) : Bool := e.level = .warn ∧ e.message = wording

/-- The style for which an event reports a face as wanting. -/
def face? : Event → Option Style
  | faceMissing style _ => some style
  | _ => none

/-- Whether an event reports a clearing. -/
def clears : Event → Bool
  | storeCleared .. => true
  | _ => false

/-- The two warnings differ in their words. -/
theorem wordings_ne : "no face for style, using regular" ≠ "unknown color name, using white" := by
  decide

/-- An event warns of a missing face in these words only. -/
theorem warns_face (e : Event) :
    e.warns "no face for style, using regular" = e.face?.isSome := by
  cases e with
  | faceMissing => exact decide_eq_true ⟨rfl, rfl⟩
  | colorUnknown => exact decide_eq_false fun h => wordings_ne h.2.symm
  | _ => exact decide_eq_false fun h => by cases h.1

/-- An event warns of an unknown color in these words only. -/
theorem warns_unknown (e : Event) :
    e.warns "unknown color name, using white" = e.unknown?.isSome := by
  cases e with
  | colorUnknown => exact decide_eq_true ⟨rfl, rfl⟩
  | faceMissing => exact decide_eq_false fun h => wordings_ne h.2
  | _ => exact decide_eq_false fun h => by cases h.1

end Event

/-- The styles for which some events report a face as wanting, in order. -/
def faces (events : List Event) : List Style := events.filterMap Event.face?

/-- The missing faces of two reports, one after the other. -/
theorem faces_append (es fs : List Event) : faces (es ++ fs) = faces es ++ faces fs :=
  List.filterMap_append

/-- As many missing faces are warned of as are reported. -/
theorem countP_warns_face (events : List Event) :
    events.countP (Event.warns "no face for style, using regular") = (faces events).length := by
  rw [faces, List.length_filterMap_eq_countP]
  exact List.countP_congr fun e _ => by rw [e.warns_face]

/-- As many unknown names are warned of as are reported. -/
theorem countP_warns_unknown (events : List Event) :
    events.countP (Event.warns "unknown color name, using white") = (unknowns events).length := by
  rw [unknowns, List.length_filterMap_eq_countP]
  exact List.countP_congr fun e _ => by rw [e.warns_unknown]

namespace Heading

/-! ### One leaf -/

/-- The key under which a leaf looks for a solid. Only a text that is not blank does. -/
def keyOf? (o : Options) : Leaf → Option SolidKey
  | .text value _ style =>
    if (Text.core value.toList).isEmpty then none
    else some (.of (.ofList (Text.core value.toList)) style o.geometry)
  | .emote .. => none

/-- What looking for a solid and building it reports. -/
def sought (o : Options) (s : Store) (k : SolidKey) : List Event :=
  if (s.geometries.get? k).isSome then [.geometryFound k.text k.style]
  else .geometryMissing k.text k.style ::
    if o.fonts.lacks k.style then [.faceMissing k.style o.fonts.regular.name] else []

namespace Draft

variable {o : Options} {d : Draft}

/-- Taking a solid reports what seeking it does. -/
theorem events_geometry (o : Options) (s : Store) (core : String) (style : Style) :
    (s.geometry (.of core style o.geometry) fun _ => build o core style).2.1 =
      sought o s (.of core style o.geometry) := by
  have hbuild : (build o core style).2 = (o.fonts.select style).2 := rfl
  rw [sought, Store.geometry, Shelf.look]
  rcases s.geometries.get? (.of core style o.geometry) with _ | g
  · simp only [hbuild, Font.Family.select_lacks]
    rfl
  · rfl

/-- **What one more leaf reports**: nothing, unless it looks for a solid. -/
theorem events_add (o : Options) (d : Draft) (leaf : Leaf) :
    (d.add o leaf).events = d.events ++ match keyOf? o leaf with
      | some k => sought o d.store k ++ (color leaf.color).2
      | none => [] := by
  cases leaf with
  | text value name style =>
    rw [add, keyOf?]
    split
    · exact (List.append_nil _).symm
    · have hrun : (d.run o value.toList name style).events = d.events ++
          (d.store.geometry (.of (.ofList (Text.core value.toList)) style o.geometry) fun _ =>
            build o (.ofList (Text.core value.toList)) style).2.1 ++ (color name).2 := rfl
      rw [hrun, events_geometry, List.append_assoc]
      rfl
  | emote id name style => exact (List.append_nil _).symm

end Draft

/-! ### One leaf after the other -/

/-- The keys that a leaf looks for in vain. -/
def missed (o : Options) (s : Store) (leaf : Leaf) : List SolidKey :=
  (keyOf? o leaf).toList.filter fun k => (s.geometries.get? k).isNone

/-- The keys that some leaves look for in vain, as one after the other is added to a draft. -/
def misses (o : Options) : Draft → List Leaf → List SolidKey
  | _, [] => []
  | d, leaf :: leaves => missed o d.store leaf ++ misses o (d.add o leaf) leaves

/-- From a draft to a later one: the solids that were asked for, and those that were missed. For
these, and for no others, faces were reported as wanting; and no clearing was reported. -/
structure Draft.Told (fonts : Font.Family) (d d' : Draft) (keys misses : List SolidKey) :
    Prop where
  missed : d.store.geometries.Missed d'.store.geometries keys misses
  faces : Marquee.faces d'.events =
    Marquee.faces d.events ++ (misses.filter (fonts.lacks ·.style)).map (·.style)
  quiet : ∀ e ∈ d'.events, e ∈ d.events ∨ ¬ e.clears

namespace Draft

variable {fonts : Font.Family} {d d₁ d' : Draft} {keys misses more misses' : List SolidKey}

/-- Where nothing happens, nothing is told. -/
theorem Told.refl (fonts : Font.Family) (d : Draft) : Told fonts d d [] [] :=
  ⟨.refl _, (List.append_nil _).symm, fun _ => .inl⟩

/-- What is told of two steps is told of the one that they make. -/
theorem Told.trans (first : Told fonts d d₁ keys misses)
    (later : Told fonts d₁ d' more misses') :
    Told fonts d d' (keys ++ more) (misses ++ misses') where
  missed := first.missed.trans later.missed
  faces := by
    rw [later.faces, first.faces, List.filter_append, List.map_append, List.append_assoc]
  quiet e he := (later.quiet e he).elim (first.quiet e) .inr

/-- A face is reported missing where a solid is sought that is not there, in a style without a face.
-/
theorem faces_sought (o : Options) (s : Store) (k : SolidKey) :
    Marquee.faces (sought o s k) = (([k].filter fun k => (s.geometries.get? k).isNone).filter
      (o.fonts.lacks ·.style)).map (·.style) := by
  rw [sought]
  rcases hget : s.geometries.get? k with _ | g
  · have hmissed : [k].filter (fun k => (s.geometries.get? k).isNone) = [k] := by simp [hget]
    rw [hmissed, List.filter_singleton]
    cases o.fonts.lacks k.style <;> rfl
  · have hthere : [k].filter (fun k => (s.geometries.get? k).isNone) = [] := by simp [hget]
    rw [hthere]
    rfl

/-- A color name reports no face. -/
theorem faces_color (name : String) : Marquee.faces (color name).2 = [] := by
  rw [color]
  split <;> rfl

/-- Neither a solid nor a color reports a clearing. -/
theorem quiet_sought (o : Options) (s : Store) (k : SolidKey) (name : String) :
    ∀ e ∈ sought o s k ++ (color name).2, ¬ e.clears := by
  rw [sought, color]
  rcases s.geometries.get? k with _ | g
  · cases o.fonts.lacks k.style <;> cases Color.ofName? name <;> simp [Event.clears]
  · cases Color.ofName? name <;> simp [Event.clears]

/-- A leaf takes the solid under its key, if it has one, and otherwise leaves all solids alone. -/
theorem geometries_add (o : Options) (d : Draft) (leaf : Leaf) :
    (keyOf? o leaf = none ∧ (d.add o leaf).store.geometries = d.store.geometries) ∨
      ∃ k make, keyOf? o leaf = some k ∧
        (d.add o leaf).store.geometries = (d.store.geometries.take k make).2 := by
  cases leaf with
  | text value name style =>
    rw [add, keyOf?]
    split
    · exact .inl ⟨rfl, rfl⟩
    · have hsolid := d.store.shelves_geometry
        (.of (.ofList (Text.core value.toList)) style o.geometry)
        fun _ => build o (.ofList (Text.core value.toList)) style
      exact .inr ⟨_, _, rfl, congrArg Store.geometries hsolid⟩
  | emote id name style => exact .inl ⟨rfl, rfl⟩

/-- **One more leaf** asks for its solid, if it has a key for one; without a key nothing can be
missed. -/
theorem told_add (o : Options) (d : Draft) (leaf : Leaf) :
    Told o.fonts d (d.add o leaf) (keyOf? o leaf).toList (Heading.missed o d.store leaf) := by
  rw [Heading.missed]
  have hevents := events_add o d leaf
  rcases geometries_add o d leaf with ⟨hkey, hsame⟩ | ⟨k, make, hkey, htake⟩
  · rw [hkey] at hevents ⊢
    rw [List.append_nil] at hevents
    refine ⟨hsame ▸ .refl _, hevents ▸ (List.append_nil _).symm, ?_⟩
    rw [hevents]
    exact fun _ => .inl
  · rw [hkey] at hevents ⊢
    refine ⟨htake ▸ Shelf.missed_take _ k make, ?_, ?_⟩
    · rw [hevents, faces_append, faces_append, faces_color, List.append_nil, faces_sought]
      rfl
    · rw [hevents]
      intro e he
      exact (List.mem_append.1 he).imp_right (quiet_sought o d.store k leaf.color e)

/-- **A row** asks for the solids of its leaves. -/
theorem told_foldl (o : Options) (leaves : List Leaf) (d : Draft) :
    Told o.fonts d (leaves.foldl (add o) d) (leaves.filterMap (keyOf? o))
      (Heading.misses o d leaves) := by
  induction leaves generalizing d with
  | nil => exact .refl _ d
  | cons leaf leaves ih =>
    have hkeys : (leaf :: leaves).filterMap (keyOf? o) =
        (keyOf? o leaf).toList ++ leaves.filterMap (keyOf? o) := by
      rw [List.filterMap_cons]
      cases keyOf? o leaf <;> rfl
    rw [hkeys, Heading.misses]
    exact (told_add o d leaf).trans (ih (d.add o leaf))

end Draft

/-! ### All of a heading -/

/-- The keys that a heading looks for in vain while it is set over a store. -/
def missesOf (o : Options) (leaves : List Leaf) (s : Store) : List SolidKey :=
  misses o (.start s) leaves

/-- The rest of what setting a heading reports are its loads. -/
theorem mem_issueAll {loader : Loader} {rs : List Request} {s : Store} {e : Event}
    (he : e ∈ (issueAll loader rs s).2.1) : ∃ url emotes generation,
      e = .loadQueued url emotes generation := by
  induction rs generalizing s with
  | nil => cases he
  | cons r rs ih =>
    rcases List.mem_cons.1 he with rfl | he
    · exact ⟨_, _, _, rfl⟩
    · exact ih he

/-- **A heading that is set** asks for the solids of its texts. For those that it missed, and for
no others, faces are reported as wanting; and no clearing is reported. -/
theorem told_ofLeaves (o : Options) (loader : Loader) (leaves : List Leaf) (s : Store) :
    s.geometries.Missed (ofLeaves o loader leaves s).2.2.geometries
        (leaves.filterMap (keyOf? o)) (missesOf o leaves s) ∧
      faces (ofLeaves o loader leaves s).2.1 =
        ((missesOf o leaves s).filter (o.fonts.lacks ·.style)).map (·.style) ∧
      ∀ e ∈ (ofLeaves o loader leaves s).2.1, ¬ e.clears := by
  obtain ⟨hmissed, hfaces, hquiet⟩ := Draft.told_foldl o leaves (.start s)
  let d := Draft.ofLeaves o leaves s
  have hevents : (ofLeaves o loader leaves s).2.1 =
      d.events ++ (issueAll loader d.requests d.store).2.1 := rfl
  refine ⟨?_, ?_, ?_⟩
  · have hissue := (shelves_issueAll loader d.requests d.store).1
    rw [ofLeaves, hissue]
    exact hmissed
  · have hissue : faces (issueAll loader d.requests d.store).2.1 = [] :=
      List.filterMap_eq_nil_iff.2 fun e he => by
        obtain ⟨url, emotes, generation, rfl⟩ := mem_issueAll he
        rfl
    rw [hevents, faces_append, hissue, List.append_nil]
    exact hfaces
  · intro e he
    rw [hevents] at he
    rcases List.mem_append.1 he with he | he
    · exact (hquiet e he).elim (fun h => absurd h List.not_mem_nil) id
    · obtain ⟨url, emotes, generation, rfl⟩ := mem_issueAll he
      exact Bool.false_ne_true

end Heading

end Marquee
