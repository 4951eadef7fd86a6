import Stencil.Json.Decode
import Stencil.Value.Json

/-!
# Stored values

A value is stored as JSON. This file fixes

* how it is stored, straight from the value, in a medium (`Value.storeIn`): as text
  (`Value.stored`), or as a tree (`Medium.jsonTree`);
* the reading of a stored tree (`Value.restore?`), which takes the first that fits of null, a truth
  value, an integer of 64 bits, a double, a text, a sequence and a mapping;
* the conversion of a value (`Value.coerce?`) to data of another shape, which is what a reader of
  that shape makes of the value's tree. No text is read as a number there; an integer counts as a
  double, but a double never as an integer.
-/

namespace Stencil.Value

/-! ## 1. Storing -/

/-- What values are stored in: a form for null and for each kind of scalar, and how a sequence and a
    mapping are put together from what they hold. -/
structure Medium (α : Type) where
  null : α
  bool : Bool → α
  int : Int64 → α
  float : Float → α
  text : String → α
  sequence : List α → α
  mapping : List (String × α) → α

/-- JSON text. What is not finite is stored as null. -/
def Medium.jsonText : Medium String where
  null := "null"
  bool b := if b then "true" else "false"
  int i := Decimal.integerText i.toInt
  float x := Json.renderNumeral (.float x)
  text := Json.renderText
  sequence items := "[" ++ ",".intercalate items ++ "]"
  mapping fields :=
    "\x7b" ++ ",".intercalate (fields.map fun field => Json.renderText field.1 ++ ":" ++ field.2) ++
      "\x7d"

/-- JSON trees. What is not finite is stored as null. -/
def Medium.jsonTree : Medium Json where
  null := .null
  bool := .bool
  int i := .number (.int i.toInt)
  float x := if x.isFinite then .number (.float x) else .null
  text := .text
  sequence := .array
  mapping := .object

section

variable {α : Type} (medium : Medium α)

mutual

/-- A value in a medium. -/
def storeIn : Value → α
  | .null => medium.null
  | .bool b => medium.bool b
  | .number (.int i) => medium.int i
  | .number (.float x) => medium.float x
  | .text s => medium.text s
  | .sequence items => medium.sequence (storeItems items)
  | .mapping fields => medium.mapping (storeFields fields)

/-- The elements of a sequence in a medium. -/
def storeItems : List Value → List α
  | [] => []
  | item :: rest => storeIn item :: storeItems rest

/-- The fields of a mapping in a medium. -/
def storeFields : List (String × Value) → List (String × α)
  | [] => []
  | (name, value) :: rest => (name, storeIn value) :: storeFields rest

end

end

/-- The text of a stored value. -/
def stored (v : Value) : String :=
  v.storeIn .jsonText

/-! ## 2. Restoring -/

/-- The scalar that a tree stores, if it stores one. -/
def restoreScalar? (tree : Json) : Option Value :=
  (tree.null?.map fun _ => .null).or <|
    (tree.bool?.map .bool).or <|
      (tree.int64?.map ofInt64).or <|
        (tree.float?.map fun x => .number (.float x)).or <| tree.text?.map .text

mutual

/-- The value that a tree stores. -/
def restore? : Json → Option Value
  | .array items => (restoreItems? items).map .sequence
  | .object fields => (restoreFields? fields).map fun pairs => .mapping (Dictionary.ofList pairs)
  | .null => restoreScalar? .null
  | .bool b => restoreScalar? (.bool b)
  | .number n => restoreScalar? (.number n)
  | .text s => restoreScalar? (.text s)

/-- The values that the elements of an array store. -/
def restoreItems? : List Json → Option (List Value)
  | [] => some []
  | item :: rest =>
    match restore? item, restoreItems? rest with
    | some v, some others => some (v :: others)
    | _, _ => none

/-- The values that the fields of an object store. -/
def restoreFields? : List (String × Json) → Option (List (String × Value))
  | [] => some []
  | (name, tree) :: rest =>
    match restore? tree, restoreFields? rest with
    | some v, some others => some ((name, v) :: others)
    | _, _ => none

end

/-! ## 3. Converting -/

/-- The data that a reader makes of a value. -/
def coerce? {α : Type} (read : Json → Option α) (v : Value) : Option α :=
  read v.toJson

end Stencil.Value
