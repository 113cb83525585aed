import Marquee.Disposal
import Marquee.Style

/-!
# Log Events

Everything the program reports while it works. An event is a cause with its data; its
level, wording and fields are three functions of it, so a theorem about what is logged
speaks of constructors and never of text.
-/

namespace Marquee

/-- How serious an event is, the gravest first. -/
inductive Level where
  | error
  | warn
  | info
  | debug
  | trace
deriving DecidableEq

namespace Level

/-- The name of a level in a log line. -/
def name : Level → String
  | error => "ERROR"
  | warn => "WARN"
  | info => "INFO"
  | debug => "DEBUG"
  | trace => "TRACE"

/-- The place of a level, counted from the gravest. -/
def rank : Level → Nat
  | error => 0
  | warn => 1
  | info => 2
  | debug => 3
  | trace => 4

end Level

/-- One thing worth reporting. -/
inductive Event where
  /-- A reading stopped while style markers were still open. -/
  | markersLeftOpen (count : Nat) (style : Style)
  /-- A style had no face of its own. -/
  | faceMissing (style : Style) (face : String)
  /-- A color name was outside the palette. -/
  | colorUnknown (name : String)
  /-- A run of text was already built. -/
  | geometryFound (text : String) (style : Style)
  /-- A run of text has to be built. -/
  | geometryMissing (text : String) (style : Style)
  /-- The store was cleared and entered a new generation. -/
  | storeCleared (generation : Nat) (released : Disposal)
  /-- A pass over some markup began. -/
  | passStarted (released : Disposal)
  /-- The markup of a pass was split into tokens. -/
  | markupSplit (tokens : Nat)
  /-- A texture was asked for. -/
  | loadQueued (url : String) (emotes : Nat) (generation : Nat)
  /-- A texture came too late to be used. -/
  | loadStale (url : String) (generation : Nat) (current : Nat)
  /-- A texture could not be had. -/
  | loadFailed (emoteId : String) (reason : String)
deriving DecidableEq

namespace Event

/-- The level an event is reported at. -/
def level : Event → Level
  | faceMissing .. | colorUnknown .. => .warn
  | markupSplit .. => .trace
  | loadFailed .. => .error
  | _ => .debug

/-- The wording of an event. -/
def message : Event → String
  | markersLeftOpen .. => "markup ended with unclosed style markers"
  | faceMissing .. => "no face for style, using regular"
  | colorUnknown .. => "unknown color name, using white"
  | geometryFound .. => "text geometry cache hit"
  | geometryMissing .. => "building text geometry"
  | storeCleared .. => "resource cache cleared"
  | passStarted .. => "starting compile pass"
  | markupSplit .. => "tokenized markup"
  | loadQueued .. => "queueing emote fetch"
  | loadStale .. => "discarding stale emote load"
  | loadFailed emoteId reason => "Failed to load emote " ++ emoteId ++ ": " ++ reason

/-- The named values reported with an event. -/
def fields : Event → List (String × String)
  | markersLeftOpen count style => [("open", toString count), ("style", style.name)]
  | faceMissing style face => [("style", style.name), ("face", face)]
  | colorUnknown name => [("color", name)]
  | geometryFound text style | geometryMissing text style =>
    [("text", text), ("style", style.name)]
  | storeCleared generation released =>
    [("generation", toString generation), ("geometries", toString released.geometries),
     ("materials", toString released.materials), ("textures", toString released.textures),
     ("aborted", toString released.loads)]
  | passStarted released => [("disposed", released.describe)]
  | markupSplit tokens => [("tokens", toString tokens)]
  | loadQueued url emotes generation =>
    [("url", url), ("emotes", toString emotes), ("generation", toString generation)]
  | loadStale url generation current =>
    [("url", url), ("generation", toString generation), ("current", toString current)]
  | loadFailed .. => []

end Event

end Marquee
