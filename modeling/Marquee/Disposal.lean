/-!
# Disposal Reports

What a store gives up when it is cleared between two passes.
-/

namespace Marquee

/-- How many entries of each kind a clearing released, and how many loads it called off. -/
structure Disposal where
  geometries : Nat
  materials : Nat
  textures : Nat
  loads : Nat
deriving DecidableEq

namespace Disposal

/-- The one-line form a report has in the log. -/
def describe (d : Disposal) : String :=
  "DisposeReport \x7b geometries: " ++ toString d.geometries ++ ", materials: "
    ++ toString d.materials ++ ", textures: " ++ toString d.textures ++ ", aborted_loads: "
    ++ toString d.loads ++ " \x7d"

end Disposal

end Marquee
