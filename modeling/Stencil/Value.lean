import Stencil.Dictionary
import Stencil.Number
import Stencil.Text.Case

/-!
# Values

What templates are evaluated to, and what handlers and filters exchange. This file fixes the type
(`Value`), the truth of a value (`isTruthy`), its equality (`same`: mappings are compared by
content and not by order) and the walk along a dotted path (`get?`).
-/

namespace Stencil

/-- A value. The fields of a mapping stand in order of insertion; their names are distinct in all
    values that the operations of this library build. -/
inductive Value where
  | null
  | bool (b : Bool)
  | number (n : Number)
  | text (s : String)
  | sequence (items : List Value)
  | mapping (fields : List (String × Value))
  deriving Inhabited

namespace Value

/-- The value of a 64-bit integer. -/
def ofInt64 (i : Int64) : Value :=
  .number (.int i)

/-- The value of a count. -/
def ofNat (n : Nat) : Value :=
  match Number.int64? n with
  | some i => .number (.int i)
  | none => .number (.float (Float.ofNat n))

/-! ## 1. Types -/

/-- The type of a value. -/
inductive Kind where
  | null
  | bool
  | number
  | text
  | sequence
  | mapping
  deriving DecidableEq, Repr

/-- The name of a type. -/
def Kind.name : Kind → String
  | .null => "null"
  | .bool => "bool"
  | .number => "number"
  | .text => "text"
  | .sequence => "sequence"
  | .mapping => "mapping"

/-- The type of a value. -/
def kind : Value → Kind
  | .null => .null
  | .bool _ => .bool
  | .number _ => .number
  | .text _ => .text
  | .sequence _ => .sequence
  | .mapping _ => .mapping

/-- Is the value null? -/
def isNull : Value → Bool
  | .null => true
  | _ => false

/-- The truth value that a value is. -/
def asBool? : Value → Option Bool
  | .bool b => some b
  | _ => none

/-- The number that a value is. -/
def asNumber? : Value → Option Number
  | .number n => some n
  | _ => none

/-- The text that a value is. -/
def asText? : Value → Option String
  | .text s => some s
  | _ => none

/-- The elements, if a value is a sequence. -/
def asSequence? : Value → Option (List Value)
  | .sequence items => some items
  | _ => none

/-- The fields, if a value is a mapping. -/
def asMapping? : Value → Option (List (String × Value))
  | .mapping fields => some fields
  | _ => none

/-! ## 2. Truth -/

/-- The truth of a value: null, `false`, zero, the empty text, the text "false" in any case and the
    empty collections are false, all else is true. -/
def isTruthy : Value → Bool
  | .null => false
  | .bool b => b
  | .number n => !n.isZero
  | .text s => !s.isEmpty && !Text.equalsIgnoringAsciiCase s "false"
  | .sequence items => !items.isEmpty
  | .mapping fields => !fields.isEmpty

/-! ## 3. Equality -/

mutual

/-- Equality of values. Two mappings are equal if they have equally many fields and every field of
    the first is in the second with an equal value. -/
def same : Value → Value → Bool
  | .null, .null => true
  | .bool a, .bool b => a == b
  | .number a, .number b => a.same b
  | .text a, .text b => a == b
  | .sequence as, .sequence bs => sameItems as bs
  | .mapping as, .mapping bs => as.length == bs.length && sameFields as bs
  | _, _ => false

/-- Equality of sequences, element by element. -/
def sameItems : List Value → List Value → Bool
  | [], [] => true
  | a :: as, b :: bs => same a b && sameItems as bs
  | _, _ => false

/-- Is every field of the first list in the second, with an equal value? -/
def sameFields : List (String × Value) → List (String × Value) → Bool
  | [], _ => true
  | (name, a) :: rest, bs =>
    (match Dictionary.get? bs name with
      | some b => same a b
      | none => false) && sameFields rest bs

end

/-! ## 4. Paths -/

/-- One step into a value: a field of a mapping by its name, an element of a sequence by its
    position. -/
def step? (v : Value) (segment : List Char) : Option Value :=
  match v with
  | .mapping fields => Dictionary.get? fields (String.ofList segment)
  | .sequence items => (Decimal.natural? segment).bind fun i => items[i]?
  | _ => none

/-- Step after step into a value. -/
def walk? (v : Value) : List (List Char) → Option Value
  | [] => some v
  | segment :: rest => (v.step? segment).bind fun inner => walk? inner rest

/-- What stands at a dotted path; the empty path is the value itself. -/
def get? (v : Value) (path : String) : Option Value :=
  if path.isEmpty then some v else walk? v (path.toList.splitOn '.')

end Value

end Stencil
