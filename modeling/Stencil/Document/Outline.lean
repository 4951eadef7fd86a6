import Stencil.Value.Json

/-!
# The outline of a document

In an outline the directives of every object are taken out of its fields. This file fixes the
outline (`Outline`), in which an object is a block: its `@if`, its `@when`, its `@value`, its
`@repeat`, the fields that look like directives and are none, and its entries, which are the
ordinary fields and the `@container` fields in the order in which they are written. Documents that
differ only in where the other directives stand among the fields have the same outline.

`Outline.ofJson` outlines a document. The condition under `@if` stays a JSON tree: its objects are
no blocks.
-/

namespace Stencil

mutual

/-- A document with its directives taken out. -/
inductive Outline where
  | null
  | bool (b : Bool)
  | number (n : Number)
  | text (s : String)
  | sequence (items : List Outline)
  | object (block : Block)

/-- An object: the names of unknown directives, the known directives that it has, and its
    entries. -/
inductive Block where
  | mk (unknown : List String) (guard : Option Json) (clauses value source : Option Outline)
      (entries : List BlockEntry)

/-- An ordinary field, or a `@container`. -/
inductive BlockEntry where
  | field (name : String) (node : Outline)
  | container (node : Outline)

end

namespace Outline

/-- The kind of the document that an outline comes from. -/
def kind : Outline → Json.Kind
  | .null => .null
  | .bool _ => .boolean
  | .number _ => .number
  | .text _ => .text
  | .sequence _ => .sequence
  | .object _ => .object

end Outline

/-! ## 1. Directives -/

namespace Directive

/-- The condition under which the object is there. -/
def guard : String := "@if"
/-- Results under conditions, the first of which counts. -/
def clauses : String := "@when"
/-- What stands for the object. -/
def value : String := "@value"
/-- The sequence over which the object is repeated. -/
def source : String := "@repeat"
/-- Objects whose fields are added. -/
def container : String := "@container"

/-- Does a field name look like a directive? -/
def looksLike (name : String) : Bool :=
  match name.toList with
  | '@' :: _ => true
  | _ => false

end Directive

namespace Block

/-- The block without directives and fields. -/
def empty : Block :=
  .mk [] none none none none []

/-- The block with one more field in front. `tree` is the field's value, `node` its outline. -/
def cons (name : String) (tree : Json) (node : Outline) : Block → Block
  | .mk unknown guard clauses value source entries =>
    if !Directive.looksLike name then
      .mk unknown guard clauses value source (.field name node :: entries)
    else if name = Directive.guard then
      .mk unknown (some (guard.getD tree)) clauses value source entries
    else if name = Directive.clauses then
      .mk unknown guard (some (clauses.getD node)) value source entries
    else if name = Directive.value then
      .mk unknown guard clauses (some (value.getD node)) source entries
    else if name = Directive.source then
      .mk unknown guard clauses value (some (source.getD node)) entries
    else if name = Directive.container then
      .mk unknown guard clauses value source (.container node :: entries)
    else .mk (name :: unknown) guard clauses value source entries

end Block

/-! ## 2. Outlining -/

namespace Outline

mutual

/-- The outline of a document. -/
def ofJson : Json → Outline
  | .null => .null
  | .bool b => .bool b
  | .number n => .number (Value.numberOf n)
  | .text s => .text s
  | .array items => .sequence (ofJsonItems items)
  | .object fields => .object (ofJsonFields fields)

/-- The outlines of the elements of a sequence. -/
def ofJsonItems : List Json → List Outline
  | [] => []
  | item :: rest => ofJson item :: ofJsonItems rest

/-- The block of the fields of an object. -/
def ofJsonFields : List (String × Json) → Block
  | [] => .empty
  | (name, tree) :: rest => Block.cons name tree (ofJson tree) (ofJsonFields rest)

end

end Outline

end Stencil
