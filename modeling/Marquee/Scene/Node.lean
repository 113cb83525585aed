import Marquee.Scene.Material
import Marquee.Scene.TextGeometry

/-!
# Scene Nodes

A scene is a tree: groups hold nodes in order, meshes and sprites are its leaves, and
every node stands in the space of what holds it by a transform of its own.

`Group` is the record of a group's name, transform and children; `Group.toNode` makes
it a node and `Node.group?` takes a node apart again.
-/

namespace Marquee.Scene

open Space

/-- Extruded text. -/
structure Mesh where
  transform : Transform
  geometry : TextGeometry
  materials : MaterialPair

/-- A unit square that faces the viewer, stretched by its transform. -/
structure Sprite where
  transform : Transform
  /-- The point of the square that stands at the origin, counted from its lower left
  corner. -/
  centerX : Float32
  centerY : Float32
  material : SpriteMaterial
  /-- Whether it only stands in for a picture that is still to come. -/
  placeholder : Bool

/-- A node of a scene. -/
inductive Node where
  | group (name : String) (transform : Transform) (children : List Node)
  | mesh (mesh : Mesh)
  | sprite (sprite : Sprite)

/-- Nodes that are moved together. -/
structure Group where
  name : String
  transform : Transform
  children : List Node

namespace Sprite

/-- A sprite anchored at its middle. -/
def ofMaterial (material : SpriteMaterial) : Sprite :=
  ⟨.identity, 0.5, 0.5, material, false⟩

/-- The square around the anchor. -/
def square (s : Sprite) : Box :=
  ⟨⟨-s.centerX, -s.centerY, 0⟩, ⟨1 - s.centerX, 1 - s.centerY, 0⟩⟩

end Sprite

namespace Mesh

/-- Text that is not moved. -/
def ofGeometry (geometry : TextGeometry) (materials : MaterialPair) : Mesh :=
  ⟨.identity, geometry, materials⟩

end Mesh

namespace Node

/-- How a node stands in the space of what holds it. -/
def transform : Node → Transform
  | group _ transform _ => transform
  | mesh m => m.transform
  | sprite s => s.transform

/-- A node that is a group, as one. -/
def group? : Node → Option Group
  | group name transform children => some ⟨name, transform, children⟩
  | _ => none

/-- A node that is a mesh, as one. -/
def mesh? : Node → Option Mesh
  | mesh m => some m
  | _ => none

/-- A node that is a sprite, as one. -/
def sprite? : Node → Option Sprite
  | sprite s => some s
  | _ => none

mutual

/-- The box of a node in its own space. -/
def localBounds : Node → Box
  | group _ _ children => union .empty children
  | mesh m => m.geometry.bounds
  | sprite s => s.square

/-- A box widened by those of some nodes, each in the space of what holds it. -/
def union (b : Box) : List Node → Box
  | [] => b
  | n :: ns => union (b.union (n.localBounds.transformed n.transform)) ns

end

/-- The box of a node in the space of what holds it. -/
def bounds (n : Node) : Box := n.localBounds.transformed n.transform

end Node

namespace Group

/-- A group without children, not moved. -/
def named (name : String) : Group := ⟨name, .identity, []⟩

/-- The group at another position. -/
def withPosition (g : Group) (position : Vec3) : Group :=
  { g with transform := { g.transform with position } }

/-- The group with one more child, behind the others. -/
def add (g : Group) (n : Node) : Group := { g with children := g.children ++ [n] }

/-- The group without its children. -/
def clear (g : Group) : Group := { g with children := [] }

/-- The group as a node. -/
def toNode (g : Group) : Node := .group g.name g.transform g.children

/-- The box around the children, in the space of the group. Empty ones add nothing. -/
def localBounds (g : Group) : Box := Node.union .empty g.children

/-- The children that are groups. -/
def groups (g : Group) : List Group := g.children.filterMap Node.group?

/-- The children that are meshes. -/
def meshes (g : Group) : List Mesh := g.children.filterMap Node.mesh?

/-- The children that are sprites. -/
def sprites (g : Group) : List Sprite := g.children.filterMap Node.sprite?

/-- The child at an index, if it is a group. -/
def child? (g : Group) (i : Nat) : Option Group := g.children[i]? >>= Node.group?

/-- The group with another child at an index. -/
def setChild (g : Group) (i : Nat) (n : Node) : Group :=
  { g with children := g.children.set i n }

/-- The group with one group below it changed, the one that a path of child indices
leads to; nothing if the path leads to none. -/
def updateAt (f : Group → Group) : List Nat → Group → Option Group
  | [], g => some (f g)
  | i :: path, g => do
    let child ← g.child? i
    pure (g.setChild i (← updateAt f path child).toNode)

/-- The group that a path of child indices leads to. -/
def find? : List Nat → Group → Option Group
  | [], g => some g
  | i :: path, g => g.child? i >>= find? path

/-- A group that was made a node is found in it. -/
@[simp]
theorem group?_toNode (g : Group) : g.toNode.group? = some g := rfl

/-- A node in which a group is found is that group. -/
theorem eq_toNode_of_group? {n : Node} {g : Group} (h : n.group? = some g) : n = g.toNode := by
  cases n with
  | group name transform children =>
    cases h
    rfl
  | mesh | sprite => cases h

/-- A group has the same box as a node. -/
@[simp]
theorem localBounds_toNode (g : Group) : g.toNode.localBounds = g.localBounds := by
  simp [toNode, Node.localBounds, localBounds]

end Group

end Marquee.Scene
