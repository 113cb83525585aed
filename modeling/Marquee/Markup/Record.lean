import Marquee.Json.Printer
import Marquee.Markup.Leaf

/-!
# Leaves as Records

The written form of parsed markup: the leaves as children of one root, each with its kind
first.
-/

namespace Marquee.Markup

open Json (Value)

namespace Leaf

/-- A leaf with what was in force where it stood. -/
def toJson : Leaf → Value
  | text value color style =>
    .record [("type", .text "text"), ("value", .text value), ("color", .text color),
      ("style", .text style.name)]
  | emote id color style =>
    .record [("type", .text "emote"), ("emote_id", .text id), ("color", .text color),
      ("style", .text style.name)]

end Leaf

/-- The leaves of some markup. -/
def leavesToJson (leaves : List Leaf) : Value :=
  .record [("children", .list (leaves.map Leaf.toJson))]

end Marquee.Markup
