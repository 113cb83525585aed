import Marquee.Scene.Node

/-!
# Scenes as Records

The written form of a scene. A node says first what kind it is; the group at the top
says nothing of the kind.
-/

namespace Marquee

open Json (Value)

namespace Color

/-- A color by its channels. -/
def toJson (c : Color) : Value :=
  .record [("r", .whole c.red.toNat), ("g", .whole c.green.toNat), ("b", .whole c.blue.toNat)]

end Color

namespace Space

namespace Vec3

/-- A vector by its coordinates. -/
def toJson (v : Vec3) : Value :=
  .record [("x", .single v.x), ("y", .single v.y), ("z", .single v.z)]

end Vec3

namespace Transform

/-- A transform by its parts. -/
def toJson (t : Transform) : Value :=
  .record [("position", t.position.toJson), ("rotation", t.rotation.toJson),
    ("scale", t.scale.toJson)]

end Transform

namespace Box

/-- A box by its corners. -/
def toJson (b : Box) : Value :=
  .record [("min", b.lower.toJson), ("max", b.upper.toJson)]

end Box

end Space

namespace Scene

namespace GlyphBox

/-- A glyph by its character, place and extent. -/
def toJson (g : GlyphBox) : Value :=
  .record [("ch", .text (String.singleton g.char)), ("x", .single g.x), ("y", .single g.y),
    ("width", .single g.width), ("height", .single g.height)]

end GlyphBox

namespace TextGeometry

/-- A geometry with all that it was built from. -/
def toJson (g : TextGeometry) : Value :=
  .record [("text", .text g.text), ("style", .text g.style.name), ("params", g.params.toJson),
    ("glyphs", .list (g.glyphs.map GlyphBox.toJson)), ("bounding_box", g.bounds.toJson)]

end TextGeometry

namespace Texture

/-- A texture without its pixels. -/
def toJson (t : Texture) : Value :=
  .record [("url", .text t.url), ("width", .whole t.width.toNat),
    ("height", .whole t.height.toNat)]

end Texture

namespace MaterialPair

/-- Both materials, each by its color. -/
def toJson (m : MaterialPair) : Value :=
  .record [("front", .record [("color", m.front.toJson)]),
    ("side", .record [("color", m.side.toJson)])]

end MaterialPair

namespace SpriteMaterial

/-- A color and perhaps a texture. -/
def toJson (m : SpriteMaterial) : Value :=
  .record [("color", m.color.toJson), ("texture", .orNull Texture.toJson m.texture)]

end SpriteMaterial

namespace Node

mutual

/-- A node, its kind first. -/
def toJson : Node → Value
  | group name transform children =>
    .record [("type", .text "group"), ("name", .text name), ("transform", transform.toJson),
      ("children", .list (toJsonList children))]
  | mesh m =>
    .record [("type", .text "mesh"), ("transform", m.transform.toJson),
      ("geometry", m.geometry.toJson), ("materials", m.materials.toJson)]
  | sprite s =>
    .record [("type", .text "sprite"), ("transform", s.transform.toJson),
      ("center", .list [.single s.centerX, .single s.centerY]),
      ("material", s.material.toJson), ("placeholder", .boolean s.placeholder)]

/-- The records of some nodes. -/
def toJsonList : List Node → List Value
  | [] => []
  | n :: ns => n.toJson :: toJsonList ns

end

end Node

namespace Group

/-- The group at the top of a scene. -/
def toJson (g : Group) : Value :=
  .record [("name", .text g.name), ("transform", g.transform.toJson),
    ("children", .list (Node.toJsonList g.children))]

end Group

end Scene

end Marquee
