import Stencil.Context
import Stencil.EvalError

/-!
# Resolvers

A resolver answers keys. It is a chain of layers; a layer gives some keys a handler, which computes
a value from the key and the context. This file fixes

* which handler a key has (`Resolver.find?`): that of the front-most layer that has the key or the
  wildcard of its namespace, where the key itself goes before the wildcard;
* which prefix of a dotted name is looked up (`Resolver.locate?`): the whole name, else the longest
  prefix before a dot that has a handler; the rest of the name is walked into the value;
* composition (`Resolver.compose`): the layers of the second behind those of the first.
-/

namespace Stencil

/-- Computes the value of a key in a context. -/
abbrev Handler := Key → Context → Outcome Value

namespace Handler

/-- The handler that always gives one value. -/
def const (v : Value) : Handler :=
  fun _ _ => .ok v

/-- The handler that reads the context: the binding of the namespace, walked along the name.
    What is missing is null. -/
def ofContext : Handler :=
  fun key context => .ok (((context.get? key.space).bind fun v => v.get? key.name).getD .null)

end Handler

/-- Keys with their handlers. -/
abbrev Layer := List (Key × Handler)

/-- A layer, and the resolver that is asked next, if there is one. -/
inductive Resolver where
  | last (front : Layer)
  | chain (front : Layer) (delegate : Resolver)

namespace Resolver

/-! ## 1. Building -/

/-- The resolver of a single layer without handlers. -/
def empty : Resolver := .last []

/-- The layers of a resolver, the front one first. -/
def layers : Resolver → List Layer
  | .last front => [front]
  | .chain front delegate => front :: delegate.layers

/-- The resolver with one more handler in its front layer, in the place of an old one. -/
def add (r : Resolver) (key : Key) (handler : Handler) : Resolver :=
  match r with
  | .last front => .last (Dictionary.insert front key handler)
  | .chain front delegate => .chain (Dictionary.insert front key handler) delegate

/-- The resolver of a list of handlers, added one after the other. -/
def ofHandlers (handlers : List (Key × Handler)) : Resolver :=
  handlers.foldl (fun r entry => r.add entry.1 entry.2) empty

/-- The first resolver in front of the second. -/
def compose : Resolver → Resolver → Resolver
  | .last front, b => .chain front b
  | .chain front delegate, b => .chain front (delegate.compose b)

@[simp] theorem layers_compose (a b : Resolver) :
    (a.compose b).layers = a.layers ++ b.layers := by
  induction a with
  | last front => rfl
  | chain front delegate ih => rw [compose, layers, layers, ih, List.cons_append]

/-! ## 2. Looking up -/

/-- The handler that a layer has for a key. -/
def inLayer? (key : Key) (layer : Layer) : Option Handler :=
  (Dictionary.get? layer key).or (Dictionary.get? layer (Key.wildcard key.space))

/-- The handler that a resolver has for a key, taken as it is. -/
def find? (r : Resolver) (key : Key) : Option Handler :=
  r.layers.findSome? (inLayer? key)

/-- A handler, the key it is called with, and the path to walk into its value, if there is one. -/
structure Located where
  handler : Handler
  key : Key
  rest : Option String

/-- The handler of a key that consists of the part of a name before a dot, to be walked along the
    part behind it. -/
def locateSplit? (r : Resolver) (space : String) (parts : List Char × List Char) :
    Option Located :=
  let key : Key := ⟨space, String.ofList parts.1⟩
  (r.find? key).map fun handler => ⟨handler, key, some (String.ofList parts.2)⟩

/-- The handler a key is answered by: that of the whole name, else of its longest part before a dot
    that has one. -/
def locate? (r : Resolver) (key : Key) : Option Located :=
  match r.find? key with
  | some handler => some ⟨handler, key, none⟩
  | none => (Text.splits '.' key.name.toList).reverse.findSome? (r.locateSplit? key.space)

/-- Does the resolver answer a key? -/
def owns (r : Resolver) (key : Key) : Bool :=
  (r.locate? key).isSome

/-- The value of a key in a context. A path that leads nowhere gives null. -/
def resolve (r : Resolver) (key : Key) (context : Context) : Outcome Value :=
  match r.locate? key with
  | none => .error (.unresolvedKey key)
  | some located =>
    match located.handler located.key context with
    | .error e => .error e
    | .ok v =>
      match located.rest with
      | none => .ok v
      | some path => .ok ((v.get? path).getD .null)

/-! ## 3. Listing -/

/-- A list of texts in quotes, with commas between them. -/
def quotedList (texts : List String) : String :=
  "[" ++ ", ".intercalate (texts.map fun s => "\"" ++ s ++ "\"") ++ "]"

/-- The keys of a layer as texts, in the order of texts. -/
def layerListing (layer : Layer) : String :=
  quotedList ((layer.map fun entry => entry.1.text).mergeSort fun a b => !decide (b < a))

/-- The keys of all layers, layer by layer. -/
def listing (r : Resolver) : String :=
  "[" ++ ", ".intercalate (r.layers.map layerListing) ++ "]"

end Resolver

end Stencil
