import Stencil.DocPath
import Stencil.Json.Decode

/-!
# Paths as JSON

A path is the array of its steps: positions as numbers, field names as texts. A field name that
looks like a position stays a text.
-/

namespace Stencil

namespace Segment

/-- The tree of a step. -/
def toJson : Segment → Json
  | .index i => .number (.int i)
  | .field name => .text name

/-- The step of a tree. -/
def ofJson? (tree : Json) : Option Segment :=
  match tree with
  | .text name => some (.field name)
  | _ => tree.nat?.map .index

end Segment

namespace DocPath

/-- The tree of a path. -/
def toJson (p : DocPath) : Json :=
  .array (p.segments.map Segment.toJson)

/-- The path of a tree. -/
def ofJson? (tree : Json) : Option DocPath :=
  (tree.list? Segment.ofJson?).map DocPath.mk

end DocPath

end Stencil
