import Marquee.Proofs.Heading.Passes

/-!
# How Text Is Painted

The mesh of a text has the materials of a color: that of the palette which the text names, or
white for a name outside the palette, and then the name is reported. Materials are kept under
their color, so one text may get those that were made for another; as long as those that a store
has were made for their colors, this makes no difference.

Only a text that is not blank asks for a color at all. Nothing else that is reported while a
heading is set speaks of one.

## Main statements

* `Store.Paired.material` — a store gives out the materials of the color it is asked for;
* `unknowns_ofLeaves` — which color names are reported;
* `Draft.painted_ofLeaves` — the materials of the meshes in a row.
-/

namespace Marquee

open Fetch Markup Scene Store

/-! ### Materials made for their colors -/

/-- Every pair of materials that a store has was made for its color. -/
def Store.Paired (s : Store) : Prop := ∀ c m, s.materials.get? c = some m → m = .ofColor c

namespace Store

variable {s t : Store}

/-- A new store has no materials. -/
theorem paired_start : Paired {} := fun _ _ h => by cases h

/-- Nor has a store that was cleared. -/
theorem paired_clear (s : Store) : s.clear.2.2.Paired := fun _ _ h => by cases h

/-- Pairing is a matter of the materials alone. -/
theorem Paired.of_eq (paired : s.Paired) (materials : t.materials = s.materials) : t.Paired :=
  fun c m h => paired c m (materials ▸ h)

/-- **The materials of a color** are given out, whether they were there or not. -/
theorem Paired.material (paired : s.Paired) (c : Color) :
    (s.material c).1 = .ofColor c ∧ (s.material c).2.Paired := by
  have hgive : (s.material c).1 = .ofColor c := by
    rw [Store.material, Shelf.take_fst]
    rcases hget : s.materials.get? c with _ | m
    · rfl
    · exact paired c m hget
  refine ⟨hgive, fun d m hd => ?_⟩
  have hd : (s.materials.take c fun _ => .ofColor c).2.get? d = some m := hd
  rw [Shelf.get?_take] at hd
  split at hd
  · next heq =>
    subst heq
    have htake := Shelf.take_fst s.materials d fun _ => .ofColor d
    exact (Option.some.inj hd).symm.trans (htake.symm.trans hgive)
  · exact paired d m hd

end Store

/-! ### Reported names -/

/-- The color name that an event reports as unknown. -/
def Event.unknown? : Event → Option String
  | .colorUnknown name => some name
  | _ => none

/-- The color names that some events report as unknown, in order. -/
def unknowns (events : List Event) : List String := events.filterMap Event.unknown?

/-- The unknown names of two reports, one after the other. -/
theorem unknowns_append (es fs : List Event) : unknowns (es ++ fs) = unknowns es ++ unknowns fs :=
  List.filterMap_append

/-- A report of an unknown name is one of the unknown names reported. -/
theorem colorUnknown_mem_iff {events : List Event} {name : String} :
    .colorUnknown name ∈ events ↔ name ∈ unknowns events := by
  rw [unknowns, List.mem_filterMap]
  constructor
  · exact fun h => ⟨_, h, rfl⟩
  · rintro ⟨e, he, hname⟩
    cases e with
    | colorUnknown n =>
      cases hname
      exact he
    | _ => cases hname

namespace Heading

/-- The color name of a leaf that is reported: that of a text which is not blank, if it is
outside the palette. -/
def unknownIn : Leaf → Option String
  | .text value color _ =>
    if (Text.core value.toList).isEmpty || (Color.ofName? color).isSome then none else some color
  | .emote .. => none

namespace Draft

variable {o : Options} {d : Draft}

/-- A name is reported if the palette does not have it. -/
theorem unknowns_color (name : String) :
    unknowns (color name).2 = if (Color.ofName? name).isSome then [] else [name] := by
  rw [color]
  cases Color.ofName? name <;> rfl

/-- Looking for a solid and building it reports no color. -/
theorem unknowns_geometry (s : Store) (o : Options) (k : SolidKey) (text : String)
    (style : Style) : unknowns (s.geometry k fun _ => build o text style).2.1 = [] := by
  have hbuild : unknowns (build o text style).2 = [] := by
    have hevents : (build o text style).2 = (o.fonts.select style).2 := rfl
    rw [hevents, Font.Family.select_events]
    split <;> rfl
  rw [geometry]
  rcases s.geometries.look k with ⟨_ | g, shelf⟩
  · exact hbuild
  · rfl

/-- One more leaf reports its own unknown name, if it has one. -/
theorem unknowns_add (d : Draft) (o : Options) (leaf : Leaf) :
    unknowns (d.add o leaf).events = unknowns d.events ++ (unknownIn leaf).toList := by
  cases leaf with
  | text value name style =>
    rw [add, unknownIn]
    split
    · next blank =>
      rw [blank, Bool.true_or, if_pos rfl]
      exact (List.append_nil _).symm
    · next ink =>
      have hevents : (d.run o value.toList name style).events = d.events ++
          (d.store.geometry (.of (.ofList (Text.core value.toList)) style o.geometry) fun _ =>
            build o (.ofList (Text.core value.toList)) style).2.1 ++ (color name).2 := rfl
      rw [hevents, unknowns_append, unknowns_append, unknowns_geometry, List.append_nil,
        unknowns_color, Bool.eq_false_iff.2 ink, Bool.false_or]
      split <;> rfl
  | emote id name style => exact (List.append_nil _).symm

/-- Leaves report their unknown names in order. -/
theorem unknowns_foldl (d : Draft) (o : Options) (leaves : List Leaf) :
    unknowns (leaves.foldl (add o) d).events =
      unknowns d.events ++ leaves.filterMap unknownIn := by
  induction leaves generalizing d with
  | nil => exact (List.append_nil _).symm
  | cons leaf leaves ih =>
    rw [List.foldl_cons, ih, unknowns_add, List.append_assoc, List.filterMap_cons]
    cases unknownIn leaf <;> rfl

end Draft

/-- Issuing loads reports no color. -/
theorem unknowns_issueAll (loader : Loader) (rs : List Request) (s : Store) :
    unknowns (issueAll loader rs s).2.1 = [] := by
  induction rs generalizing s with
  | nil => rfl
  | cons r rs ih => exact ih _

/-- **The color names that are reported** while a heading is set are those of its texts, as far
as they are outside the palette, whatever the store has. -/
theorem unknowns_ofLeaves (o : Options) (loader : Loader) (leaves : List Leaf) (s : Store) :
    unknowns (ofLeaves o loader leaves s).2.1 = leaves.filterMap unknownIn := by
  let d := Draft.ofLeaves o leaves s
  have hevents : (ofLeaves o loader leaves s).2.1 =
      d.events ++ (issueAll loader d.requests d.store).2.1 := rfl
  rw [hevents, unknowns_append, unknowns_issueAll, List.append_nil]
  exact Draft.unknowns_foldl (Draft.start s) o leaves

/-- A pass reports no others. -/
theorem unknowns_compile (o : Options) (loader : Loader) (markup : String) (s : Store) :
    unknowns (compile o loader markup s).2.1 = (leavesOf markup).filterMap unknownIn := by
  have hevents : (compile o loader markup s).2.1 = s.clear.2.1 ++ [.passStarted s.clear.1,
      .markupSplit (tokenize markup).length] ++ (parse (tokenize markup)).2 ++
        (ofLeaves o loader (leavesOf markup) s.clear.2.2).2.1 := rfl
  have hread : unknowns (parse (tokenize markup)).2 = [] := by
    have hparse : (parse (tokenize markup)).2 = Reader.openMarkers _ := rfl
    rw [hparse, Reader.openMarkers]
    split <;> rfl
  rw [hevents, unknowns_append, unknowns_append, hread, unknowns_ofLeaves]
  rfl

/-! ### Painted rows -/

namespace Draft

/-- The meshes of the texts in a draft have the materials of their colors, and so do those that
are to come. -/
structure Painted (leaves : List Leaf) (d : Draft) : Prop where
  length : d.groups.length = leaves.length
  paired : d.store.Paired
  text : ∀ (i : Nat) value name style, leaves[i]? = some (.text value name style) →
    Text.core value.toList ≠ [] → ∃ (g : Group) (m : Mesh), d.groups[i]? = some g ∧
      g.children = [.mesh m] ∧ m.materials = .ofColor (color name).1

variable {o : Options} {s : Store} {leaves : List Leaf} {d : Draft}

/-- A draft without groups is painted. -/
theorem painted_start (paired : s.Paired) : Painted [] (start s) :=
  ⟨rfl, paired, fun _ _ _ _ h => by cases h⟩

/-- **One more leaf.** -/
theorem Painted.snoc (painted : Painted leaves d) {leaf : Leaf} {d' : Draft} {g : Group}
    (groups : d'.groups = d.groups ++ [g]) (paired : d'.store.Paired)
    (text : ∀ value name style, leaf = .text value name style → Text.core value.toList ≠ [] →
      ∃ m : Mesh, g.children = [.mesh m] ∧ m.materials = .ofColor (color name).1) :
    Painted (leaves ++ [leaf]) d' := by
  refine ⟨?_, paired, fun i value name style hleaf ink => ?_⟩
  · rw [groups, List.length_append, List.length_append, painted.length]
    rfl
  · rw [groups]
    rcases getElem?_concat_cases hleaf with old | ⟨rfl, hnew⟩
    · obtain ⟨f, m, hf, hm⟩ := painted.text i value name style old ink
      exact ⟨f, m, (List.getElem?_append_left (List.getElem?_eq_some_iff.1 hf).1).trans hf, hm⟩
    · obtain ⟨m, hm⟩ := text value name style hnew.symm ink
      rw [← painted.length, List.getElem?_concat_length]
      exact ⟨g, m, rfl, hm⟩

/-- A run is painted in the color of its name. -/
theorem Painted.run (painted : Painted leaves d) (value name : String) (style : Style) :
    Painted (leaves ++ [.text value name style]) (d.run o value.toList name style) := by
  let core := String.ofList (Text.core value.toList)
  let built := d.store.geometry (.of core style o.geometry) fun _ => build o core style
  obtain ⟨hgive, hpaired⟩ :=
    (painted.paired.of_eq (materials_geometry _ _ _) : built.2.2.Paired).material (color name).1
  have hgroups : (d.run o value.toList name style).groups = d.groups ++
      [group ("text:" ++ core) (d.cursor + gap o (Text.leading value.toList))
        [.mesh (.ofGeometry built.1 (built.2.2.material (color name).1).1)]] := rfl
  refine painted.snoc hgroups hpaired ?_
  rintro value' name' style' heq -
  cases heq
  exact ⟨_, rfl, hgive⟩

/-- **One more leaf** is painted, if it is a text with something to see. -/
theorem Painted.add (painted : Painted leaves d) (leaf : Leaf) :
    Painted (leaves ++ [leaf]) (d.add o leaf) := by
  cases leaf with
  | text value name style =>
    rw [Draft.add]
    split
    · next blank =>
      refine painted.snoc rfl painted.paired ?_
      rintro value' name' style' heq ink
      cases heq
      exact absurd (List.isEmpty_iff.1 blank) ink
    · exact painted.run value name style
  | emote id name style =>
    exact painted.snoc rfl (painted.paired.of_eq rfl) fun _ _ _ h => by cases h

/-- **The meshes in a row** have the materials of the colors that their texts name. -/
theorem painted_ofLeaves (o : Options) (leaves : List Leaf) (paired : s.Paired) :
    Painted leaves (ofLeaves o leaves s) :=
  ofLeaves_induction (painted_start paired) (fun _ leaf painted => painted.add leaf) leaves

end Draft

end Heading

end Marquee
