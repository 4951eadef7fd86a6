import Stencil.Filter

/-!
# Logic filters

The filters of the namespace `logic`: the negation of the truth of a value, and the size of a text
or a collection.
-/

namespace Stencil.Filter.Logic

/-- The negation of the truth of a value. -/
def negate : Filter :=
  fun v _ _ => .ok (.bool (!v.isTruthy))

/-- The size of a value: the characters of a text, the members of a collection, none of null. -/
def sizeOf? : Value → Option Nat
  | .null => some 0
  | .text s => some s.length
  | .sequence items => some items.length
  | .mapping fields => some fields.length
  | .bool _ => none
  | .number _ => none

/-- The size of a value as a number. -/
def size : Filter :=
  fun v _ _ =>
    match sizeOf? v with
    | some n => .ok (Value.ofNat n)
    | none => .error (.typeMismatch (.notSized v.kind))

/-- The logic filters with their names. -/
def family : List (String × Filter) :=
  [("not", negate), ("size", size)]

end Stencil.Filter.Logic
