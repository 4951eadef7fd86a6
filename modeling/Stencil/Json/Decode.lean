import Stencil.Json
import Stencil.Number

/-!
# Reading structured data off JSON trees

This file fixes how data of a known shape is read off a tree: the scalars, options and lists, and
records. A record is an object, or an array of its fields in order (`Json.record?`); a field that
the record has must not be repeated. `Option` results are `none` where a tree is not of the shape.
-/

namespace Stencil.Json

/-! ## 1. Scalars -/

/-- An integer. -/
def int? : Json → Option Int
  | .number (.int i) => some i
  | _ => none

/-- A natural number. -/
def nat? (tree : Json) : Option Nat :=
  match tree.int? with
  | some i => if 0 ≤ i then some i.toNat else none
  | none => none

/-- A natural number below a bound. -/
def natBelow? (bound : Nat) (tree : Json) : Option Nat :=
  match tree.nat? with
  | some n => if n < bound then some n else none
  | none => none

/-- An integer that fits 64 bits with its sign. -/
def int64? (tree : Json) : Option Int64 :=
  tree.int?.bind Number.int64?

/-- A number as a double. -/
def float? : Json → Option Float
  | .number (.int i) => some (Float.ofInt i)
  | .number (.float x) => some x
  | _ => none

/-- Null. -/
def null? : Json → Option Unit
  | .null => some ()
  | _ => none

/-- A truth value. -/
def bool? : Json → Option Bool
  | .bool b => some b
  | _ => none

/-- A text. -/
def text? : Json → Option String
  | .text s => some s
  | _ => none

/-! ## 2. Options and lists -/

/-- Null, or something that a reader accepts. -/
def orNull? {α : Type} (read : Json → Option α) : Json → Option (Option α)
  | .null => some none
  | tree => (read tree).map some

/-- An array of things that a reader accepts. -/
def list? {α : Type} (read : Json → Option α) : Json → Option (List α)
  | .array items => items.mapM read
  | _ => none

/-! ## 3. Records -/

/-- The shape of a record: its fields in order, whether an object may have others, and whether an
    array may break off early. -/
structure Shape where
  names : List String
  admitsOthers : Bool
  admitsFewer : Bool

/-- Does a list of fields repeat none of the names? -/
def hasNoRepeats (names : List String) (fields : List (String × Json)) : Bool :=
  names.all fun name => (fields.filter fun field => field.1 == name).length ≤ 1

/-- The fields of a record, by their names. -/
def record? (shape : Shape) : Json → Option (List (String × Json))
  | .object fields =>
    if hasNoRepeats shape.names fields ∧
        (shape.admitsOthers ∨ fields.all fun field => shape.names.contains field.1) then
      some fields
    else none
  | .array items =>
    if items.length = shape.names.length ∨
        (shape.admitsFewer ∧ items.length < shape.names.length) then
      some (shape.names.zip items)
    else none
  | _ => none

/-- A field that must be there. -/
def required? {α : Type} (read : Json → Option α) (fields : List (String × Json)) (name : String) :
    Option α :=
  (Dictionary.get? fields name).bind read

/-- A field that has a default. -/
def withDefault? {α : Type} (read : Json → Option α) (default : α)
    (fields : List (String × Json)) (name : String) : Option α :=
  match Dictionary.get? fields name with
  | some tree => read tree
  | none => some default

/-- A field that can be missing or null. -/
def optional? {α : Type} (read : Json → Option α) (fields : List (String × Json)) (name : String) :
    Option (Option α) :=
  withDefault? (orNull? read) none fields name

end Stencil.Json
