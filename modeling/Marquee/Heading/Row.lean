import Marquee.Fetch.Request
import Marquee.Heading.Stack
import Marquee.Heading.Typeset
import Marquee.Markup.Leaf
import Marquee.Store.Basic
import Marquee.Text.Blank

/-!
# Rows

The leaves of some markup side by side, one group to each, from left to right. A cursor
runs ahead of them:

* a blank text only moves the cursor, by so many blanks;
* any other text stands as far behind the cursor as it has blanks in front, and moves the
  cursor past the blanks behind it;
* an emote stands as a stack of its picture, or, where the store has none, as a
  placeholder; then its address is asked for.

A gap on either side of a text or emote is never less than the least gap.
-/

namespace Marquee.Heading

open Fetch Markup Scene Space

/-- A row being laid out. -/
structure Draft where
  /-- How far the row reaches. -/
  cursor : Float32
  /-- The children so far, in order. -/
  groups : List Group
  requests : List Request
  store : Store
  /-- What was reported, in order. -/
  events : List Event

namespace Draft

/-- A row without anything in it. -/
def start (store : Store) : Draft := ⟨0, [], [], store, []⟩

/-- A group on the baseline. -/
def group (name : String) (x : Float32) (children : List Node) : Group :=
  { Group.named name with transform := .moved ⟨x, 0, 0⟩, children }

/-- The color that a name stands for; white for one that is not known. -/
def color (name : String) : Color × List Event :=
  match Color.ofName? name with
  | some c => (c, [])
  | none => (.white, [.colorUnknown name])

/-- The solid of a run of text, and what building it reports. -/
def build (o : Options) (text : String) (style : Style) : TextGeometry × List Event :=
  let (face, events) := o.fonts.select style
  (typeset text style face o.geometry, events)

/-- The width of some blanks, but no less than the least gap. -/
def gap (o : Options) (blanks : List Char) : Float32 :=
  greater (Float32.ofNat blanks.length * o.spacing) o.minGap

/-- The row with a blank text added. -/
def space (o : Options) (text : List Char) (d : Draft) : Draft :=
  { d with
    cursor := d.cursor + Float32.ofNat text.length * o.spacing
    groups := d.groups ++ [group "space" d.cursor []] }

/-- The row with a run of text added, without its blank margins. -/
def run (o : Options) (text : List Char) (colorName : String) (style : Style) (d : Draft) :
    Draft :=
  let core := String.ofList (Text.core text)
  let (geometry, built, store) :=
    d.store.geometry (.of core style o.geometry) fun _ => build o core style
  let (color, unknown) := color colorName
  let (materials, store) := store.material color
  let lead := gap o (Text.leading text)
  let trail := gap o (Text.trailing text)
  { d with
    cursor := d.cursor + (lead + geometry.width + trail)
    groups := d.groups ++
      [group ("text:" ++ core) (d.cursor + lead) [.mesh (.ofGeometry geometry materials)]]
    store
    events := d.events ++ built ++ unknown }

/-- The row with an emote added. -/
def emote (o : Options) (id : String) (d : Draft) : Draft :=
  let stack := Stack.ofOptions o
  let url := o.emotes.urlFor id
  let (found, store) := d.store.texture? url
  let shown := match found with
    | some t => stack.sprites t
    | none => [stack.placeholder]
  { d with
    cursor := d.cursor + (o.minGap + stack.size + o.minGap)
    groups := d.groups ++ [group ("emote:" ++ id) (d.cursor + o.minGap) shown]
    requests :=
      if found.isSome then d.requests else Request.ask url id d.groups.length d.requests
    store }

/-- The row with a leaf added. -/
def add (o : Options) (d : Draft) : Leaf → Draft
  | .text value color style =>
    let text := value.toList
    if (Text.core text).isEmpty then d.space o text else d.run o text color style
  | .emote id _ _ => d.emote o id

/-- The row of some leaves. -/
def ofLeaves (o : Options) (leaves : List Leaf) (store : Store) : Draft :=
  leaves.foldl (add o) (start store)

/-- The finished row, moved so that its middle is at the origin. -/
def row (d : Draft) : Group :=
  let g := { Group.named "row" with children := d.groups.map Group.toNode }
  g.withPosition (g.localBounds.center.scale (-1))

end Draft

end Marquee.Heading
