import Stencil.Dictionary

/-!
# JSON trees

Documents, settings and diagnostics are exchanged as JSON. This file fixes the tree (`Json`): an
object is a list of fields in the order they are written. A tree as it is read can hold a field
twice; `Json.collapse` makes each object a dictionary, and is the identity on trees without
repeated fields.
-/

namespace Stencil

/-- A JSON number: an integer, or a double. Reading gives an integer for every literal without
    point and exponent that fits 64 bits, signed or unsigned. -/
inductive Numeral where
  | int (i : Int)
  | float (x : Float)

/-- A JSON tree. -/
inductive Json where
  | null
  | bool (b : Bool)
  | number (n : Numeral)
  | text (s : String)
  | array (items : List Json)
  | object (fields : List (String × Json))
  deriving Inhabited

namespace Json

/-! ## 1. Kinds -/

/-- What a tree is at its root. -/
inductive Kind where
  | null
  | boolean
  | number
  | text
  | sequence
  | object
  deriving DecidableEq, Repr

/-- The words by which a diagnostic names a kind. -/
def Kind.description : Kind → String
  | .null => "null"
  | .boolean => "a boolean"
  | .number => "a number"
  | .text => "text"
  | .sequence => "a sequence"
  | .object => "an object"

/-- The kind of a tree. -/
def kind : Json → Kind
  | .null => .null
  | .bool _ => .boolean
  | .number _ => .number
  | .text _ => .text
  | .array _ => .sequence
  | .object _ => .object

/-! ## 2. Repeated fields -/

mutual

/-- The tree in which every object has a field only once: at its first place, with its last
    value. -/
def collapse : Json → Json
  | .array items => .array (collapseItems items)
  | .object fields => .object (Dictionary.ofList (collapseFields fields))
  | .null => .null
  | .bool b => .bool b
  | .number n => .number n
  | .text s => .text s

/-- Collapses the elements of an array. -/
def collapseItems : List Json → List Json
  | [] => []
  | item :: rest => collapse item :: collapseItems rest

/-- Collapses the values of the fields of an object. -/
def collapseFields : List (String × Json) → List (String × Json)
  | [] => []
  | (name, value) :: rest => (name, collapse value) :: collapseFields rest

end

end Json

end Stencil
