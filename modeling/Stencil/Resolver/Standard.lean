import Stencil.Resolver

/-!
# The standard keys

The layer that every engine starts with: the truth values, number literals, two constants, and the
bindings of the repetition that is under way.
-/

namespace Stencil.Resolver

/-- The namespace of the truth values. -/
def boolSpace : String := "Bool"

/-- The namespace of number literals. -/
def numberSpace : String := "Number"

/-- The namespace of the two constants. -/
def mathSpace : String := "Math"

/-- The namespace of the bindings of a repetition, and the name that they have in the context. -/
def repeatSpace : String := "repeat"

/-- The handler that reads the name of a key as a number. -/
def numberLiteral : Handler :=
  fun key _ =>
    match Number.parse? key.name with
    | some n => .ok (.number n)
    | none => .error (.typeMismatch (.nameNotNumber key.name))

/-- The ratio of a circle's circumference to its diameter. -/
def pi : Float := 3.141592653589793

/-- The base of the natural logarithm. -/
def euler : Float := 2.718281828459045

/-- The resolver of the standard keys. -/
def standard : Resolver :=
  ofHandlers
    [(⟨boolSpace, "true"⟩, Handler.const (.bool true)),
     (⟨boolSpace, "false"⟩, Handler.const (.bool false)),
     (Key.wildcard numberSpace, numberLiteral),
     (⟨mathSpace, "PI"⟩, Handler.const (.number (.float pi))),
     (⟨mathSpace, "E"⟩, Handler.const (.number (.float euler))),
     (Key.wildcard repeatSpace, Handler.ofContext)]

end Stencil.Resolver
