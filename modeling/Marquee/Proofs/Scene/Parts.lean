import Marquee.Scene.Node
import Mathlib

/-!
# The Parts of a Scene

The leaves below a node that have something to see, in order, each with the transforms that it
goes through. What holds a group does not show in them, except by a transform; so the parts are
the same, in some order, however the nodes are arranged, with or without empty groups between
them, and however they are turned.

## Main statements

* `Rearranged.parts_perm` — the parts of scenes that differ in their arrangement;
* `parts_subset_of_updateAt` — a scene that something was added to still has the parts it had.
-/

namespace Marquee.Scene

open Space

/-! ### Parts -/

/-- The box of a leaf, and the transforms it goes through, its own first. -/
structure Part where
  box : Box
  chain : List Transform
  visible : ¬ box.isEmpty

namespace Part

/-- A part below one more transform. -/
def under (t : Transform) (p : Part) : Part := { p with chain := p.chain ++ [t] }

/-- Where a part is seen: its box, mapped by one transform after the other. -/
def image (p : Part) : Box := p.chain.foldl Box.transformed p.box

end Part

/-- The part that a leaf is, if it has something to see. -/
def leaf (b : Box) (t : Transform) : List Part :=
  if h : b.isEmpty then [] else [⟨b, [t], h⟩]

mutual

/-- The parts of a node, in the space of what holds it. -/
def Node.parts : Node → List Part
  | .group _ t children => (partsOf children).map (Part.under t)
  | .mesh m => leaf m.geometry.bounds m.transform
  | .sprite s => leaf s.square s.transform

/-- The parts of some nodes. -/
def partsOf : List Node → List Part
  | [] => []
  | n :: ns => n.parts ++ partsOf ns

end

/-- The parts below a group, in its own space. -/
def Group.parts (g : Group) : List Part := partsOf g.children

/-- The box around what is seen of some parts. -/
def hull (ps : List Part) : Box := ps.foldl (fun b p => b.union p.image) .empty

/-- The parts of some nodes are those of each in turn. -/
theorem partsOf_eq (ns : List Node) : partsOf ns = ns.flatMap Node.parts := by
  induction ns with
  | nil => rfl
  | cons n ns ih => rw [partsOf, ih, List.flatMap_cons]

/-! ### Turning -/

/-- A node with another rotation. -/
def Node.turned (r : Vec3) : Node → Node
  | .group name t children => .group name { t with rotation := r } children
  | .mesh m => .mesh { m with transform := { m.transform with rotation := r } }
  | .sprite s => .sprite { s with transform := { s.transform with rotation := r } }

/-- A transform without its rotation. -/
def still (t : Transform) : Transform := { t with rotation := .zero }

/-- A part without any rotation. -/
def Part.still (p : Part) : Part := { p with chain := p.chain.map Scene.still }

/-- A part below one more transform, without any rotation. -/
theorem Part.still_under (t : Transform) (p : Part) :
    (p.under t).still = p.still.under (Scene.still t) :=
  congrArg (fun chain => { p with chain }) List.map_append

/-- Many parts below one more transform, without any rotation. -/
theorem still_map_under (t : Transform) (ps : List Part) :
    (ps.map (Part.under t)).map Part.still = (ps.map Part.still).map (Part.under (still t)) := by
  rw [List.map_map, List.map_map]
  exact List.map_congr_left fun p _ => p.still_under t

/-- A leaf without its rotation has the same part without it. -/
theorem still_leaf (b : Box) (t : Transform) : (leaf b t).map Part.still = leaf b (still t) := by
  unfold leaf
  split <;> rfl

/-- A node that is turned has the same parts, but for rotations. -/
theorem parts_turned (r : Vec3) (n : Node) :
    (n.turned r).parts.map Part.still = n.parts.map Part.still := by
  cases n with
  | group name t children =>
    rw [Node.turned, Node.parts, Node.parts, still_map_under, still_map_under]
    rfl
  | mesh m =>
    rw [Node.turned, Node.parts, Node.parts, still_leaf, still_leaf]
    rfl
  | sprite s =>
    rw [Node.turned, Node.parts, Node.parts, still_leaf, still_leaf]
    rfl

/-! ### Rearranging -/

/-- **Scenes that differ in their arrangement**: the order of nodes at any level, groups with
nothing in them, wherever they stand, and rotations. -/
inductive Rearranged : List Node → List Node → Prop
  | symm {ns ms : List Node} : Rearranged ns ms → Rearranged ms ns
  | trans {ns ms ls : List Node} : Rearranged ns ms → Rearranged ms ls → Rearranged ns ls
  | perm {ns ms : List Node} : ns.Perm ms → Rearranged ns ms
  | hollow (name : String) (t : Transform) (ns : List Node) :
    Rearranged (.group name t [] :: ns) ns
  | turned (r : Vec3) (n : Node) (ns : List Node) : Rearranged (n.turned r :: ns) (n :: ns)
  | cons (n : Node) {ns ms : List Node} : Rearranged ns ms → Rearranged (n :: ns) (n :: ms)
  | within (name : String) (t : Transform) (ls : List Node) {ns ms : List Node} :
    Rearranged ns ms → Rearranged (.group name t ns :: ls) (.group name t ms :: ls)

/-- **The parts are the same**, but for rotations and their order. -/
theorem Rearranged.parts_perm {ns ms : List Node} (h : Rearranged ns ms) :
    ((partsOf ns).map Part.still).Perm ((partsOf ms).map Part.still) := by
  induction h with
  | symm _ ih => exact ih.symm
  | trans _ _ ih ih' => exact ih.trans ih'
  | perm h =>
    rw [partsOf_eq, partsOf_eq]
    exact (h.flatMap_right Node.parts).map Part.still
  | hollow name t ns => exact .refl _
  | turned r n ns =>
    rw [partsOf, partsOf, List.map_append, List.map_append, parts_turned]
  | cons n _ ih =>
    rw [partsOf, partsOf, List.map_append, List.map_append]
    exact ih.append_left _
  | within name t ls _ ih =>
    rw [partsOf, partsOf, List.map_append, List.map_append, Node.parts, Node.parts,
      still_map_under, still_map_under]
    exact (ih.map _).append_right _

/-! ### Adding -/

/-- A part of some nodes is one of some node among them. -/
theorem mem_partsOf {p : Part} {ns : List Node} : p ∈ partsOf ns ↔ ∃ n ∈ ns, p ∈ n.parts := by
  rw [partsOf_eq, List.mem_flatMap]

/-- Seen from outside, the parts of a group are below its transform. -/
theorem parts_toNode (g : Group) : g.toNode.parts = g.parts.map (Part.under g.transform) := rfl

/-- A group that is given another child still has the parts it had. -/
theorem parts_subset_add (g : Group) (n : Node) : g.parts ⊆ (g.add n).parts := by
  intro p hp
  obtain ⟨m, hm, hmp⟩ := mem_partsOf.1 hp
  exact mem_partsOf.2 ⟨m, List.mem_append_left [n] hm, hmp⟩

/-- A group one of whose children changed has the parts it had, if the child has. -/
theorem parts_subset_setChild {g : Group} {i : ℕ} {n m : Node} (hn : g.children[i]? = some n)
    (hsubset : n.parts ⊆ m.parts) : g.parts ⊆ (g.setChild i m).parts := by
  intro p hp
  obtain ⟨l, hl, hlp⟩ := mem_partsOf.1 hp
  obtain ⟨j, hj⟩ := List.mem_iff_getElem?.1 hl
  rcases eq_or_ne i j with rfl | hne
  · obtain rfl : n = l := Option.some_inj.1 (hn.symm.trans hj)
    have hi : i < g.children.length := (List.getElem?_eq_some_iff.1 hn).1
    exact mem_partsOf.2 ⟨m, List.mem_set hi m, hsubset hlp⟩
  · have hset : (g.children.set i m)[j]? = some l := (List.getElem?_set_ne hne).trans hj
    exact mem_partsOf.2 ⟨l, List.mem_of_getElem? hset, hlp⟩

/-- **A scene that something was added to**, at whatever depth, still has the parts it had. -/
theorem parts_subset_of_updateAt {n : Node} {path : List ℕ} {g g' : Group}
    (h : g.updateAt (·.add n) path = some g') :
    g.parts ⊆ g'.parts ∧ g'.transform = g.transform := by
  induction path generalizing g g' with
  | nil =>
    obtain rfl : g.add n = g' := Option.some_inj.1 h
    exact ⟨parts_subset_add g n, rfl⟩
  | cons i path ih =>
    rw [Group.updateAt] at h
    obtain ⟨child, hchild, h⟩ := Option.bind_eq_some_iff.1 h
    obtain ⟨child', hchild', h⟩ := Option.bind_eq_some_iff.1 h
    obtain rfl : g.setChild i child'.toNode = g' := Option.some_inj.1 h
    obtain ⟨m, hm, hgroup⟩ := Option.bind_eq_some_iff.1 hchild
    obtain rfl : m = child.toNode := Group.eq_toNode_of_group? hgroup
    obtain ⟨hsubset, htransform⟩ := ih hchild'
    refine ⟨parts_subset_setChild hm ?_, rfl⟩
    rw [parts_toNode, parts_toNode, htransform]
    exact List.map_subset _ hsubset

end Marquee.Scene
