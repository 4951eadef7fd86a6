import Stencil.Json.Printer
import Stencil.Value

/-!
# Values and JSON trees

This file fixes the two readings of values and JSON trees as each other. `Value.ofJson` keeps an
integer that fits 64 bits with its sign and makes a double of any other number; `Value.toJson`
writes infinities and NaN as null. `Value.display` is the text of a value: collections show as
their JSON text.
-/

namespace Stencil.Value

/-! ## 1. From JSON -/

/-- The number of a JSON numeral. -/
def numberOf : Numeral → Number
  | .int i =>
    match Number.int64? i with
    | some a => .int a
    | none => .float (Float.ofInt i)
  | .float x => .float x

mutual

/-- The value of a JSON tree. -/
def ofJson : Json → Value
  | .null => .null
  | .bool b => .bool b
  | .number n => .number (numberOf n)
  | .text s => .text s
  | .array items => .sequence (ofJsonItems items)
  | .object fields => .mapping (Dictionary.ofList (ofJsonFields fields))

/-- The values of the elements of an array. -/
def ofJsonItems : List Json → List Value
  | [] => []
  | item :: rest => ofJson item :: ofJsonItems rest

/-- The values of the fields of an object. -/
def ofJsonFields : List (String × Json) → List (String × Value)
  | [] => []
  | (name, tree) :: rest => (name, ofJson tree) :: ofJsonFields rest

end

/-! ## 2. To JSON -/

/-- The JSON tree of a number. -/
def jsonOfNumber : Number → Json
  | .int i => .number (.int i.toInt)
  | .float x => if x.isFinite then .number (.float x) else .null

mutual

/-- The JSON tree of a value. -/
def toJson : Value → Json
  | .null => .null
  | .bool b => .bool b
  | .number n => jsonOfNumber n
  | .text s => .text s
  | .sequence items => .array (toJsonItems items)
  | .mapping fields => .object (toJsonFields fields)

/-- The trees of the elements of a sequence. -/
def toJsonItems : List Value → List Json
  | [] => []
  | item :: rest => toJson item :: toJsonItems rest

/-- The trees of the fields of a mapping. -/
def toJsonFields : List (String × Value) → List (String × Json)
  | [] => []
  | (name, value) :: rest => (name, toJson value) :: toJsonFields rest

end

/-! ## 3. As text -/

/-- The text of a value. Null is the empty text, a text is itself, a collection its JSON text. -/
def display : Value → String
  | .null => ""
  | .bool true => "true"
  | .bool false => "false"
  | .number n => n.text
  | .text s => s
  | v => v.toJson.render

end Stencil.Value
