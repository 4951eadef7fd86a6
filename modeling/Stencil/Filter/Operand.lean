import Stencil.Filter
import Stencil.Value.Json

/-!
# Operands of filters

What the standard filters ask of their input and their arguments. This file fixes when an argument
is there, when a value counts as a text or a number, and the mismatch that is reported otherwise.
-/

namespace Stencil.Filter

/-- The argument at a position. -/
def argument (filter : String) (args : List String) (i : Nat) : Outcome String :=
  match args[i]? with
  | some s => .ok s
  | none => .error (.typeMismatch (.missingArgument filter (i + 1)))

/-- A scalar as text; collections are refused. -/
def scalarText (filter : String) (v : Value) : Outcome String :=
  match v with
  | .sequence _ => .error (.typeMismatch (.notScalar filter v.kind))
  | .mapping _ => .error (.typeMismatch (.notScalar filter v.kind))
  | _ => .ok v.display

/-- The number of a value: null has none, a text is read. -/
def number? (filter : String) (v : Value) : Outcome (Option Number) :=
  match v with
  | .null => .ok none
  | .number n => .ok (some n)
  | .text s =>
    match Number.parse? s with
    | some n => .ok (some n)
    | none => .error (.typeMismatch (.textNotNumber filter s))
  | _ => .error (.typeMismatch (.notNumber filter v.kind))

/-- The argument at a position, as a number. -/
def numberArgument (filter : String) (args : List String) (i : Nat) : Outcome Number :=
  match argument filter args i with
  | .error e => .error e
  | .ok s =>
    match Number.parse? s with
    | some n => .ok n
    | none => .error (.typeMismatch (.textNotNumber filter s))

end Stencil.Filter
