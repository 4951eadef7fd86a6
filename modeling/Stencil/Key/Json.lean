import Stencil.Json.Decode
import Stencil.Key

/-!
# Keys as JSON

A key is the object of its namespace and its name; an array of the two is accepted, and so are
further fields of an object.
-/

namespace Stencil.Key

/-- The tree of a key. -/
def toJson (k : Key) : Json :=
  .object [("namespace", .text k.space), ("name", .text k.name)]

/-- The key of a tree. -/
def ofJson? (tree : Json) : Option Key := do
  let fields ← tree.record? ⟨["namespace", "name"], true, false⟩
  let space ← Json.required? Json.text? fields "namespace"
  let name ← Json.required? Json.text? fields "name"
  return ⟨space, name⟩

end Stencil.Key
