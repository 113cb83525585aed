import Marquee.Proofs.Markup.Markers
import Marquee.Proofs.Markup.Segments

/-!
# Nested Markers

Markup is nested if every marker is followed by one like it, and what stands between the two
is nested again. Behind such a pair the pen is where it was in front of it, whichever style
is in force there: a pair either opens its style and closes it, or, if it is the style in
force, closes that and opens it again. So a leaf is stamped with the style that the markers
around it lead to, one by one from the outermost, and what is nested beside it does not
matter.

The lexer takes each marker as it is written because something that is no star stands on
both its sides.

## Main statements

* `Framed.around` — markup on both sides of a marker can be written with it between;
* `walk_segments` — reading tokens that are some segments;
* `Nested.read` — behind nested markup the pen is where it was, and each leaf is stamped with
  the style of the markers around it;
* `nested_markers_scope` — so it is for a source from its first character to its last.
-/

namespace Marquee.Markup

/-! ### Nested markup -/

namespace Segment

/-- Whether a segment becomes a leaf when it is read. -/
def isLeaf : Segment → Bool
  | text _ | emote _ => true
  | _ => false

/-- Whether a segment is a marker. -/
def isStyle : Segment → Bool
  | style _ => true
  | _ => false

end Segment

/-- A part of markup that is no marker. -/
inductive Item where
  | char (c : Char)
  | emote (id : String)
  | color (name : String)
deriving DecidableEq

namespace Item

/-- The characters of an item. -/
def written : Item → String
  | char c => String.singleton c
  | emote id => (Segment.emote id).written
  | color name => (Segment.color name).written

/-- An item that can be written: a character with which no markup begins, an emote with
digits, or a color with an escape. -/
def Valid : Item → Prop
  | char c => c ≠ '*' ∧ c ≠ ':' ∧ c ≠ '\x1b'
  | emote id => (Segment.emote id).Valid
  | color name => (Segment.color name).Valid

/-- An item in front of some segments. A character in front of a text is part of it. -/
def before : Item → List Segment → List Segment
  | char c, .text v :: segments => .text (String.singleton c ++ v) :: segments
  | char c, segments => .text (String.singleton c) :: segments
  | emote id, segments => .emote id :: segments
  | color name, segments => .color name :: segments

/-- Some items as segments, neighboring characters as one text. -/
def segments (items : List Item) : List Segment := items.foldr before []

end Item

/-- Markup whose markers are nested: some items, or a pair of markers with nested markup
before, between and after them. -/
inductive Nested where
  | plain (items : List Item)
  | wrap (outside : Nested) (marker : Style) (inside : Nested) (after : Nested)

namespace Nested

/-- The source of nested markup. -/
def written : Nested → String
  | plain items => String.join (items.map Item.written)
  | wrap outside marker inside after =>
    outside.written ++ (Segment.style marker).written ++ inside.written ++
      (Segment.style marker).written ++ after.written

/-- Between any two markers there is some item, each can be written, and no marker is that of
the regular style, which has none. -/
def Valid : Nested → Prop
  | plain items => items ≠ [] ∧ ∀ i ∈ items, i.Valid
  | wrap outside marker inside after =>
    outside.Valid ∧ marker ≠ .regular ∧ inside.Valid ∧ after.Valid

/-- The segments of nested markup. -/
def segments : Nested → List Segment
  | plain items => Item.segments items
  | wrap outside marker inside after =>
    outside.segments ++ .style marker :: (inside.segments ++ .style marker :: after.segments)

/-- The texts and emotes of nested markup within some markers, each with all the markers
around it, the outermost first. -/
def scopes (around : List Style) : Nested → List (Segment × List Style)
  | plain items => ((Item.segments items).filter Segment.isLeaf).map fun s => (s, around)
  | wrap outside marker inside after =>
    outside.scopes around ++ inside.scopes (around ++ [marker]) ++ after.scopes around

end Nested

/-! ### Writing it -/

namespace Segment

/-- Segments that can be written one behind the other, with a segment that is no marker at
either end. -/
structure Framed (segments : List Segment) : Prop extends WellFormed segments where
  first : ∃ s, segments.head? = some s ∧ s.isStyle = false
  last : ∃ s, segments.getLast? = some s ∧ s.isStyle = false

variable {s t : Segment} {m : Style}

/-- Anything but a marker may stand before a marker. -/
theorem mayPrecede_style (hs : s.isStyle = false) : s.MayPrecede (.style m) := by
  cases s with
  | style => cases hs
  | text | color | emote => trivial

/-- A marker may stand before anything but a marker. -/
theorem style_mayPrecede (ht : t.isStyle = false) : (Segment.style m).MayPrecede t := by
  cases t with
  | style => cases ht
  | text | color | emote => trivial

/-- **A marker between** two parts of markup does not run into either. -/
theorem Framed.around {a b : List Segment} (before : Framed a) (behind : Framed b)
    (marker : m ≠ .regular) : Framed (a ++ .style m :: b) := by
  obtain ⟨s, hs, hsstyle⟩ := before.last
  obtain ⟨t, ht, htstyle⟩ := behind.first
  have hchain : (Segment.style m :: b).IsChain MayPrecede := by
    refine List.isChain_cons.2 ⟨fun t' ht' => ?_, behind.apart⟩
    obtain rfl : t = t' := Option.some.inj (ht.symm.trans ht')
    exact style_mayPrecede htstyle
  refine ⟨⟨?_, ?_⟩, ?_, ?_⟩
  · exact List.forall_mem_append.2 ⟨before.valid, List.forall_mem_cons.2 ⟨marker, behind.valid⟩⟩
  · refine List.isChain_append.2 ⟨before.apart, hchain, fun s' hs' t' ht' => ?_⟩
    obtain rfl : s = s' := Option.some.inj (hs.symm.trans hs')
    obtain rfl : .style m = t' := Option.some.inj ht'
    exact mayPrecede_style hsstyle
  · obtain ⟨u, hu, hustyle⟩ := before.first
    exact ⟨u, by rw [List.head?_append, hu, Option.some_or], hustyle⟩
  · obtain ⟨u, hu, hustyle⟩ := behind.last
    refine ⟨u, ?_, hustyle⟩
    rw [List.getLast?_append, List.getLast?_cons, hu]
    rfl

/-- Segments in a row are written in a row. -/
theorem write_append (a b : List Segment) : write (a ++ b) = write a ++ write b := by
  rw [write, write, write, List.map_append, String.join_append]

/-- The first segment is written first. -/
theorem write_cons (s : Segment) (a : List Segment) : write (s :: a) = s.written ++ write a := by
  rw [write, write, List.map_cons, String.join_cons]

end Segment

open Segment

namespace Item

variable {i : Item} {segments : List Segment}

/-- An item before some segments is written before them. -/
theorem write_before (i : Item) (segments : List Segment) :
    write (i.before segments) = i.written ++ write segments := by
  fun_cases before i segments with
  | case1 c v segments =>
    rw [write_cons, write_cons, Segment.written, Segment.written, String.append_assoc]
    rfl
  | case2 | case3 | case4 => exact write_cons _ _

/-- Some items are written as their segments are. -/
theorem write_segments (items : List Item) :
    write (Item.segments items) = String.join (items.map written) := by
  induction items with
  | nil => rfl
  | cons i items ih =>
    rw [Item.segments, List.foldr_cons, write_before, List.map_cons, String.join_cons, ← ih,
      Item.segments]

/-- A character with which no markup begins can stand in front of a text, and alone. -/
theorem isText_cons {c : Char} {v w : String} (hc : (char c).Valid)
    (hw : w.toList = c :: v.toList) (hv : v = "" ∨ IsText v) : IsText w := by
  obtain ⟨hstar, hcolon, hescape⟩ := hc
  obtain ⟨vstar, vcolon, vintro⟩ : '*' ∉ v.toList ∧ ':' ∉ v.toList ∧
      ¬ Escape.intro <:+: v.toList := by
    rcases hv with rfl | isText
    · decide
    · exact ⟨isText.star, isText.colon, isText.intro⟩
  refine ⟨?_, ?_, ?_, ?_⟩
  · rintro rfl
    cases hw
  · rw [hw, List.mem_cons, not_or]
    exact ⟨hstar.symm, vstar⟩
  · rw [hw, List.mem_cons, not_or]
    exact ⟨hcolon.symm, vcolon⟩
  · rw [hw, List.infix_cons_iff, not_or]
    exact ⟨fun hpre => hescape (List.cons_prefix_cons.1 hpre).1.symm, vintro⟩

/-- Segments without a marker that can be written one behind the other. -/
structure Loose (segments : List Segment) : Prop extends WellFormed segments where
  unmarked : ∀ s ∈ segments, s.isStyle = false

/-- A segment in front of others without a marker. -/
theorem Loose.cons {s : Segment} (loose : Loose segments) (valid : s.Valid)
    (unmarked : s.isStyle = false) (apart : ∀ t ∈ segments.head?, s.MayPrecede t) :
    Loose (s :: segments) where
  valid := List.forall_mem_cons.2 ⟨valid, loose.valid⟩
  apart := List.isChain_cons.2 ⟨apart, loose.apart⟩
  unmarked := List.forall_mem_cons.2 ⟨unmarked, loose.unmarked⟩

/-- Loose segments are loose without the first one. -/
theorem Loose.tail {s : Segment} (loose : Loose (s :: segments)) : Loose segments where
  valid := (List.forall_mem_cons.1 loose.valid).2
  apart := loose.apart.tail
  unmarked := (List.forall_mem_cons.1 loose.unmarked).2

/-- One more item in front keeps segments apart. -/
theorem Loose.before (loose : Loose segments) (valid : i.Valid) : Loose (i.before segments) := by
  fun_cases Item.before i segments with
  | case1 c v segments =>
    obtain ⟨hv, -⟩ := List.forall_mem_cons.1 loose.valid
    refine loose.tail.cons (isText_cons valid ?_ (.inr hv)) rfl fun t ht => ?_
    · rw [String.toList_append, String.toList_singleton]
      rfl
    · have apart := (List.isChain_cons.1 loose.apart).1 t ht
      cases t with
      | text w => exact apart
      | color | style | emote => trivial
  | case2 c segments noText =>
    refine loose.cons (isText_cons (v := "") valid (String.toList_singleton c) (.inl rfl)) rfl fun t ht => ?_
    cases t with
    | text v =>
      obtain ⟨more, rfl⟩ := List.head?_eq_some_iff.1 ht
      exact noText v more rfl
    | color | style | emote => trivial
  | case3 id segments => exact loose.cons valid rfl fun t _ => trivial
  | case4 name segments => exact loose.cons valid rfl fun t _ => trivial

/-- An item before some segments leaves something to write. -/
theorem before_ne_nil (i : Item) (segments : List Segment) : i.before segments ≠ [] := by
  fun_cases before i segments <;> exact List.cons_ne_nil _ _

/-- The segments of valid items are loose. -/
theorem loose_segments {items : List Item} (valid : ∀ i ∈ items, i.Valid) :
    Loose (Item.segments items) := by
  induction items with
  | nil => exact ⟨⟨List.forall_mem_nil _, .nil⟩, List.forall_mem_nil _⟩
  | cons i items ih =>
    obtain ⟨hi, hitems⟩ := List.forall_mem_cons.1 valid
    exact (ih hitems).before hi

/-- Some items, if there are any, can stand between markers. -/
theorem framed_segments {items : List Item} (hne : items ≠ []) (valid : ∀ i ∈ items, i.Valid) :
    Framed (Item.segments items) := by
  have loose := loose_segments valid
  have hsegments : Item.segments items ≠ [] := by
    obtain ⟨i, items, rfl⟩ := List.exists_cons_of_ne_nil hne
    exact before_ne_nil i _
  refine ⟨loose.toWellFormed, ?_, ?_⟩
  · exact ⟨_, List.head?_eq_some_head hsegments, loose.unmarked _ (List.head_mem hsegments)⟩
  · exact ⟨_, List.getLast?_eq_some_getLast hsegments,
      loose.unmarked _ (List.getLast_mem hsegments)⟩

end Item

namespace Nested

/-- **Nested markup can be written**: its markers do not run into what stands beside them. -/
theorem framed {n : Nested} (valid : n.Valid) : Framed n.segments := by
  induction n with
  | plain items => exact Item.framed_segments valid.1 valid.2
  | wrap outside marker inside after ihOutside ihInside ihAfter =>
    obtain ⟨hOutside, hmarker, hInside, hAfter⟩ := valid
    exact (ihOutside hOutside).around ((ihInside hInside).around (ihAfter hAfter) hmarker) hmarker

/-- Nested markup is written as its segments are. -/
theorem write_segments (n : Nested) : write n.segments = n.written := by
  induction n with
  | plain items => exact Item.write_segments items
  | wrap outside marker inside after ihOutside ihInside ihAfter =>
    simp only [segments, write_append, write_cons, ihOutside, ihInside, ihAfter, written,
      String.append_assoc]

end Nested

/-! ### Reading it -/

/-- The pen behind a segment. -/
def Pen.past (p : Pen) : Segment → Pen
  | .color name => p.dip name
  | .style s => p.toggle s
  | .text _ | .emote _ => p

/-- The leaves of some segments that are read with a pen. -/
def Segment.leaves (p : Pen) : List Segment → List Leaf
  | [] => []
  | .text v :: segments => .text v p.color p.style :: leaves p segments
  | .emote id :: segments => .emote id p.color p.style :: leaves p segments
  | .color name :: segments => leaves (p.past (.color name)) segments
  | .style m :: segments => leaves (p.past (.style m)) segments

/-- The segment that a leaf was read from. -/
def Leaf.segment : Leaf → Segment
  | .text v _ _ => .text v
  | .emote id _ _ => .emote id

/-- The pen under some markers, the outermost first. -/
def Pen.under (around : List Style) : Pen := around.foldl Pen.toggle .start

/-- **Reading tokens that are some segments**, up to the end behind them. -/
theorem walk_segments {ts : List Token} {segments : List Segment} (p : Pen)
    (tokens : ts.map (fun t => (t.kind, t.value)) =
      segments.map (fun s => (s.kind, s.written)) ++ [(.eof, "")]) :
    (Reader.walk p ts).1 = Segment.leaves p segments ∧
      (Reader.walk p ts).2.1 = segments.foldl Pen.past p := by
  induction segments generalizing ts p with
  | nil =>
    obtain ⟨t, rfl, ht⟩ := List.map_eq_singleton_iff.1 tokens
    have hkind : t.kind = .eof := congrArg Prod.fst ht
    rw [Reader.walk, hkind]
    exact ⟨rfl, rfl⟩
  | cons s segments ih =>
    obtain ⟨t, ts, rfl, ht, hmore⟩ := List.map_eq_cons_iff.1 tokens
    have hkind : t.kind = s.kind := congrArg Prod.fst ht
    have hvalue : t.value = s.written := congrArg Prod.snd ht
    obtain ⟨hleaves, hpen⟩ := ih (p.past s) hmore
    cases s with
    | text v =>
      rw [Reader.walk, hkind, hvalue]
      exact ⟨congrArg (List.cons _) hleaves, hpen⟩
    | emote id =>
      rw [Reader.walk, hkind]
      exact ⟨congrArg (List.cons _) hleaves, hpen⟩
    | color name =>
      rw [Reader.walk, hkind]
      exact ⟨hleaves, hpen⟩
    | style m =>
      rw [Reader.walk, hkind]
      exact ⟨hleaves, hpen⟩

/-- Segments in a row make leaves in a row, the later ones with the pen that the first ones left. -/
theorem Segment.leaves_append (p : Pen) (a b : List Segment) :
    leaves p (a ++ b) = leaves p a ++ leaves (a.foldl Pen.past p) b := by
  induction a generalizing p with
  | nil => rfl
  | cons s a ih =>
    cases s with
    | text | emote => exact congrArg (List.cons _) (ih _)
    | color | style => exact ih _

/-- Without a marker the styles of the pen stay, and every leaf gets the one in force. -/
theorem Segment.leaves_of_unmarked {segments : List Segment}
    (unmarked : ∀ s ∈ segments, s.isStyle = false) (p : Pen) :
    (leaves p segments).map (fun l => (l.segment, l.style)) =
        (segments.filter isLeaf).map (fun s => (s, p.style)) ∧
      (segments.foldl Pen.past p).styles = p.styles := by
  induction segments generalizing p with
  | nil => exact ⟨rfl, rfl⟩
  | cons s segments ih =>
    obtain ⟨hs, hsegments⟩ := List.forall_mem_cons.1 unmarked
    obtain ⟨hleaves, hstyles⟩ := ih hsegments (p.past s)
    cases s with
    | text | emote => exact ⟨congrArg (List.cons _) hleaves, hstyles⟩
    | color => exact ⟨hleaves, hstyles⟩
    | style => cases hs

namespace Pen

variable {p q : Pen} {m : Style} {around : List Style}

/-- What a marker does to the styles of a pen depends on nothing but them. -/
theorem styles_toggle_congr (same : p.styles = q.styles) (m : Style) :
    (p.toggle m).styles = (q.toggle m).styles := by
  obtain ⟨hstyle, hbeneath⟩ := List.cons.inj same
  rw [toggle, toggle, hstyle, hbeneath]
  split
  · split <;> rfl
  · rfl

/-- Toggling markers of styles leaves the pen over some of them. -/
theorem Over.foldl_toggle {u : List Style} (pen : p.Over u) (marked : .regular ∉ around) :
    ∃ u, (around.foldl Pen.toggle p).Over u := by
  induction around generalizing p u with
  | nil => exact ⟨u, pen⟩
  | cons m around ih =>
    obtain ⟨hm, haround⟩ := not_or.1 (List.mem_cons.not.1 marked)
    exact ih (pen.toggle (Ne.symm hm)) haround

/-- Under one more marker, the style is toggled once more. -/
theorem under_concat (around : List Style) (m : Style) :
    under (around ++ [m]) = (under around).toggle m :=
  List.foldl_append

/-- Behind a pair of markers the pen is where it was in front of it. -/
theorem toggle_under_concat (marked : .regular ∉ around) (marker : m ≠ .regular) :
    (under (around ++ [m])).toggle m = under around := by
  obtain ⟨u, pen⟩ := over_start.foldl_toggle marked
  rw [under_concat]
  exact pen.toggle_toggle marker

end Pen

/-- **Nested markup keeps its scopes.** Read with a pen that is under some markers, each leaf is
stamped with the style of the markers around it, and the styles of the pen are as before. Induction
on the markup: what stands between two markers is read under one marker more, so the pen is followed
from in front of the first marker to behind it, and from in front of the second to behind that. -/
theorem Nested.read {n : Nested} (valid : n.Valid) {around : List Style}
    (marked : .regular ∉ around) {p : Pen} (here : p.styles = (Pen.under around).styles) :
    (Segment.leaves p n.segments).map (fun l => (l.segment, l.style)) =
        (n.scopes around).map (fun q => (q.1, (Pen.under q.2).style)) ∧
      (n.segments.foldl Pen.past p).styles = p.styles := by
  induction n generalizing around p with
  | plain items =>
    have hstyle : p.style = (Pen.under around).style := (List.cons.inj here).1
    obtain ⟨hleaves, hstyles⟩ :=
      Segment.leaves_of_unmarked (Item.loose_segments valid.2).unmarked p
    refine ⟨hleaves.trans ?_, hstyles⟩
    rw [scopes, List.map_map, hstyle]
    rfl
  | wrap outside marker inside after ihOutside ihInside ihAfter =>
    obtain ⟨hOutside, hmarker, hInside, hAfter⟩ := valid
    have marked' : .regular ∉ around ++ [marker] := by
      rw [List.mem_append, List.mem_singleton, not_or]
      exact ⟨marked, hmarker.symm⟩
    obtain ⟨hleaves₁, hstyles₁⟩ := ihOutside hOutside marked here
    have here₂ := Pen.styles_toggle_congr (hstyles₁.trans here) marker
    rw [← Pen.under_concat] at here₂
    obtain ⟨hleaves₂, hstyles₂⟩ := ihInside hInside marked' here₂
    have here₃ := Pen.styles_toggle_congr (hstyles₂.trans here₂) marker
    rw [Pen.toggle_under_concat marked hmarker] at here₃
    obtain ⟨hleaves₃, hstyles₃⟩ := ihAfter hAfter marked here₃
    constructor
    · rw [segments, Segment.leaves_append, Segment.leaves, Segment.leaves_append, Segment.leaves,
        scopes, List.map_append, List.map_append, List.map_append, List.map_append, ← hleaves₁,
        ← hleaves₂, ← hleaves₃, List.append_assoc]
      rfl
    · rw [segments, List.foldl_append, List.foldl_cons, List.foldl_append, List.foldl_cons]
      exact (hstyles₃.trans here₃).trans here.symm

/-- **Nested markers keep to their scopes.** For every nested markup, once the tokens of its
source are read, the pen is back at the regular style with nothing beneath, and no marker is
reported open. Its leaves are its texts and emotes in order, each with the style that is
reached from the regular one by toggling the markers around it, from the outermost inwards,
and no others. -/
theorem nested_markers_scope (n : Nested) (valid : n.Valid) :
    (finalPen (tokenize n.written)).style = .regular ∧
      (finalPen (tokenize n.written)).beneath = [] ∧
      (parse (tokenize n.written)).2 = [] ∧
      (parse (tokenize n.written)).1.map (fun l => (l.segment, l.style)) =
        (n.scopes []).map fun q => (q.1, (Pen.under q.2).style) := by
  have tokens := tokens_write (Nested.framed valid).toWellFormed
  rw [n.write_segments] at tokens
  obtain ⟨hleaves, hpen⟩ := walk_segments .start tokens
  obtain ⟨hscopes, hstyles⟩ := Nested.read valid (List.not_mem_nil) (p := .start) rfl
  have hfinal : (finalPen (tokenize n.written)).styles = [.regular] :=
    (congrArg Pen.styles hpen).trans hstyles
  obtain ⟨hstyle, hbeneath⟩ := List.cons.inj hfinal
  refine ⟨hstyle, hbeneath, ?_, ?_⟩
  · rw [parse_eq, Reader.openMarkers, hbeneath]
    rfl
  · rw [parse_eq, hleaves]
    exact hscopes

/-- The inner pair is of the style in force, so its first marker closes that style and its
second opens it again. -/
theorem equal_pair_inside :
    let inside : Nested := .wrap (.plain [.char 'b', .color "RED"]) .italic (.plain [.emote "1"])
      (.plain [.char 'd'])
    let markup : Nested := .wrap (.plain [.char 'a']) .italic inside (.plain [.char 'e'])
    markup.Valid ∧ markup.written = "a*b\x1b[31m*:1:*d*e" ∧
      (parse (tokenize "a*b\x1b[31m*:1:*d*e")).1.map (fun l => (l.segment, l.style)) =
        [(.text "a", .regular), (.text "b", .italic), (.emote "1", .regular), (.text "d", .italic),
          (.text "e", .regular)] := by
  intro inside markup
  have char : ∀ c ∈ ['a', 'b', 'd', 'e'], (Item.char c).Valid := by
    simp [Item.Valid]
  have valid : markup.Valid := by
    refine ⟨⟨by decide, ?_⟩, by decide, ⟨⟨by decide, ?_⟩, by decide, ⟨by decide, ?_⟩, by decide, ?_⟩,
      by decide, ?_⟩
    · exact List.forall_mem_singleton.2 (char 'a' (by decide))
    · exact List.forall_mem_cons.2 ⟨char 'b' (by decide),
        List.forall_mem_singleton.2 ⟨_, .tail _ (.head _), rfl⟩⟩
    · exact List.forall_mem_singleton.2 ⟨by decide, List.forall_mem_singleton.2 (by decide)⟩
    · exact List.forall_mem_singleton.2 (char 'd' (by decide))
    · exact List.forall_mem_singleton.2 (char 'e' (by decide))
  have hwritten : markup.written = "a*b\x1b[31m*:1:*d*e" := by decide
  obtain ⟨-, -, -, hscopes⟩ := nested_markers_scope markup valid
  rw [hwritten] at hscopes
  exact ⟨valid, hwritten, hscopes.trans (by decide)⟩

end Marquee.Markup
