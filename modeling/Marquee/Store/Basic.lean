import Marquee.Event
import Marquee.Scene.Material
import Marquee.Scene.TextGeometry
import Marquee.Store.Shelf

/-!
# The Store

What passes over markup share: solids of text, materials and textures, each on a shelf
of its own, and the loads that are under way. Clearing the store empties the shelves,
calls the loads off and begins another generation; loads of an earlier generation are of
no use any more.

A load is tracked by a number that is never given out twice.
-/

namespace Marquee

open Scene Store

/-- What a solid of text is stored under. -/
structure Store.SolidKey where
  text : String
  style : Style
  /-- The fingerprint of the parameters. -/
  params : String
deriving DecidableEq

/-- What passes over markup share. -/
structure Store where
  geometries : Shelf SolidKey TextGeometry := {}
  materials : Shelf Color MaterialPair := {}
  textures : Shelf String Texture := {}
  /-- The loads that are under way. -/
  inFlight : List Nat := []
  /-- The loads that were called off. -/
  cancelled : List Nat := []
  /-- The number of the next load. -/
  nextLoad : Nat := 0
  generation : Nat := 0

namespace Store

namespace SolidKey

/-- The key of a run of text. -/
def of (text : String) (style : Style) (params : Extrusion) : SolidKey :=
  ⟨text, style, params.fingerprint⟩

end SolidKey

/-- The solid under a key; a missing one is built. -/
def geometry (s : Store) (k : SolidKey) (build : Unit → TextGeometry × List Event) :
    TextGeometry × List Event × Store :=
  match s.geometries.look k with
  | (some g, shelf) =>
    (g, [.geometryFound k.text k.style], { s with geometries := shelf })
  | (none, shelf) =>
    let (g, events) := build ()
    (g, .geometryMissing k.text k.style :: events, { s with geometries := shelf.put k g })

/-- The materials of a color. -/
def material (s : Store) (c : Color) : MaterialPair × Store :=
  let (pair, shelf) := s.materials.take c fun _ => .ofColor c
  (pair, { s with materials := shelf })

/-- The texture that was loaded from an address. -/
def texture? (s : Store) (url : String) : Option Texture × Store :=
  let (found, shelf) := s.textures.look url
  (found, { s with textures := shelf })

/-- The store with the texture loaded from an address. -/
def insertTexture (s : Store) (url : String) (t : Texture) : Store :=
  { s with textures := s.textures.put url t }

/-- The number of a new load. -/
def track (s : Store) : Nat × Store :=
  (s.nextLoad, { s with nextLoad := s.nextLoad + 1, inFlight := s.nextLoad :: s.inFlight })

/-- The store with a load done. One that is not under way makes no difference. -/
def finish (s : Store) (load : Nat) : Store :=
  { s with inFlight := s.inFlight.filter (· != load) }

/-- The number of loads under way. -/
def pendingLoads (s : Store) : Nat := s.inFlight.length

/-- Whether a load was called off. -/
def isCancelled (s : Store) (load : Nat) : Bool := s.cancelled.contains load

/-- What a clearing would release. -/
def holdings (s : Store) : Disposal :=
  ⟨s.geometries.size, s.materials.size, s.textures.size, s.pendingLoads⟩

/-- The store of the next generation, and what was released. -/
def clear (s : Store) : Disposal × List Event × Store :=
  let released := s.holdings
  let generation := s.generation + 1
  (released, [.storeCleared generation released],
    { s with
      geometries := s.geometries.clear
      materials := s.materials.clear
      textures := s.textures.clear
      inFlight := []
      cancelled := s.inFlight ++ s.cancelled
      generation })

end Store

end Marquee
