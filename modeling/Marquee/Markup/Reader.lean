import Marquee.Event
import Marquee.Markup.Lexer
import Marquee.Markup.Pen

/-!
# Reading Tokens into Leaves

A reader takes tokens one by one, moves the pen, and stamps every text and emote with
it. It stops after an end token and can be asked to go on behind it; the pen is kept.
-/

namespace Marquee.Markup

/-- Tokens not yet read, and the pen they will find. -/
structure Reader where
  tokens : List Token
  pen : Pen

namespace Reader

/-- A reader of some tokens, with a fresh pen. -/
def ofTokens (tokens : List Token) : Reader :=
  ⟨tokens, .start⟩

/-- The leaves up to the next end token, the pen there, and the tokens behind it. -/
def walk (p : Pen) : List Token → List Leaf × Pen × List Token
  | [] => ([], p, [])
  | t :: ts =>
    match t.kind with
    | .text =>
      let (leaves, rest) := walk p ts
      (.text t.value p.color p.style :: leaves, rest)
    | .emote id =>
      let (leaves, rest) := walk p ts
      (.emote id p.color p.style :: leaves, rest)
    | .color name => walk (p.dip name) ts
    | .style s => walk (p.toggle s) ts
    | .eof => ([], p, ts)

/-- What a reading reports: markers still open where it stopped. -/
def openMarkers (p : Pen) : List Event :=
  if p.beneath.isEmpty then [] else [.markersLeftOpen p.beneath.length p.style]

/-- Reads up to the next end token. -/
def read (r : Reader) : List Leaf × List Event × Reader :=
  let (leaves, pen, rest) := walk r.pen r.tokens
  (leaves, openMarkers pen, ⟨rest, pen⟩)

end Reader

/-- The leaves of some tokens, and what reading them reports. -/
def parse (tokens : List Token) : List Leaf × List Event :=
  let (leaves, events, _) := (Reader.ofTokens tokens).read
  (leaves, events)

end Marquee.Markup
