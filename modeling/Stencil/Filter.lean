import Stencil.Expr
import Stencil.Resolver

/-!
# Filters

A filter turns a value into a value, with arguments from the template and with the keys and the
context at hand. This file fixes the registry of filters: a filter has a namespace and a name; a
bare name means the first namespace that ever registered it (`Registry.find?`), and a new
registration takes the place of an old one (`Registry.register`). `Registry.applyAll` sends a value
through a pipeline.
-/

namespace Stencil

/-- The keys and the context at hand. -/
structure Scope where
  keys : Resolver
  context : Context

/-- The value of a key in the scope. -/
def Scope.resolve (scope : Scope) (key : Key) : Outcome Value :=
  scope.keys.resolve key scope.context

/-- Turns a value into a value, given arguments. -/
abbrev Filter := Value → List String → Scope → Outcome Value

/-- Filters by namespace and name, and for each bare name the namespace it means. -/
structure Registry where
  filters : List ((String × String) × Filter)
  bare : List (String × String)

namespace Registry

/-- The registry without filters. -/
def empty : Registry := ⟨[], []⟩

/-- The registry with one more filter. -/
def register (r : Registry) (space name : String) (filter : Filter) : Registry :=
  { filters := Dictionary.insert r.filters (space, name) filter
    bare := match Dictionary.get? r.bare name with
      | some _ => r.bare
      | none => Dictionary.insert r.bare name space }

/-- The registry with the filters of one namespace, registered one after the other. -/
def registerAll (r : Registry) (space : String) (filters : List (String × Filter)) : Registry :=
  filters.foldl (fun acc entry => acc.register space entry.1 entry.2) r

/-- The namespace and the name that a written name means. -/
def qualify? (r : Registry) (written : String) : Option (String × String) :=
  match Text.splitFirst '.' written.toList with
  | some (space, name) => some (String.ofList space, String.ofList name)
  | none => (Dictionary.get? r.bare written).map fun space => (space, written)

/-- The filter that a written name means. -/
def find? (r : Registry) (written : String) : Option Filter :=
  (r.qualify? written).bind (Dictionary.get? r.filters)

/-- Is there a filter of that name? -/
def contains (r : Registry) (written : String) : Bool :=
  (r.find? written).isSome

/-- A value behind one filter. -/
def apply (r : Registry) (call : FilterCall) (input : Value) (scope : Scope) : Outcome Value :=
  match r.find? call.name with
  | some filter => filter input call.args scope
  | none => .error (.unknownFilter call.name)

/-- A value behind a pipeline of filters; the first error ends it. -/
def applyAll (r : Registry) (scope : Scope) : List FilterCall → Value → Outcome Value
  | [], v => .ok v
  | call :: rest, v =>
    match r.apply call v scope with
    | .error e => .error e
    | .ok next => r.applyAll scope rest next

/-- The names of all filters with their namespaces, in the order of texts. -/
def names (r : Registry) : List String :=
  (r.filters.map fun entry => entry.1.1 ++ "." ++ entry.1.2).mergeSort fun a b => !decide (b < a)

/-- The names of all filters, as one text. -/
def listing (r : Registry) : String :=
  "FilterRegistry \x7b filters: " ++ Resolver.quotedList r.names ++ " \x7d"

end Registry

end Stencil
