import Stencil.Value

/-!
# Contexts

A context binds names to values, in frames. This file fixes how a context grows (`Context.extend`:
a new frame, unless there is nothing to bind) and how a name is found (`Context.get?`: in the
innermost frame that has it, so that a frame hides those around it).
-/

namespace Stencil

/-- Frames of bindings, the innermost one first. -/
structure Context where
  frames : List (List (String × Value))
  deriving Inhabited

namespace Context

/-- The context without bindings. -/
def empty : Context := ⟨[]⟩

/-- The context with a new frame of bindings. -/
def extend (c : Context) (bindings : List (String × Value)) : Context :=
  match Dictionary.ofList bindings with
  | [] => c
  | frame => ⟨frame :: c.frames⟩

/-- The context with one more name. -/
def bind (c : Context) (name : String) (v : Value) : Context :=
  c.extend [(name, v)]

/-- The context of a list of bindings. -/
def ofBindings (bindings : List (String × Value)) : Context :=
  empty.extend bindings

/-- What a name is bound to. -/
def get? (c : Context) (name : String) : Option Value :=
  c.frames.findSome? fun frame => Dictionary.get? frame name

/-- Is a name bound? -/
def contains (c : Context) (name : String) : Bool :=
  (c.get? name).isSome

/-- The number of frames. -/
def depth (c : Context) : Nat :=
  c.frames.length

@[simp] theorem get?_empty (name : String) : empty.get? name = none := rfl

/-- **A frame hides those around it**: a name is looked up in the new bindings, then outside. -/
theorem get?_extend (c : Context) (bindings : List (String × Value)) (name : String) :
    (c.extend bindings).get? name =
      (Dictionary.get? (Dictionary.ofList bindings) name).or (c.get? name) := by
  unfold extend
  split
  · rename_i hnil
    rw [hnil, Dictionary.get?_nil, Option.none_or]
  · simp only [get?, List.findSome?_cons]
    cases Dictionary.get? (Dictionary.ofList bindings) name <;> rfl

/-- **The new name hides the old one**, and no other. -/
theorem get?_bind (c : Context) (name other : String) (v : Value) :
    (c.bind name v).get? other = if name = other then some v else c.get? other := by
  rw [bind, get?_extend]
  by_cases h : name = other
  · simp [Dictionary.ofList, Dictionary.extend, Dictionary.insert, Dictionary.get?_cons, h]
  · simp [Dictionary.ofList, Dictionary.extend, Dictionary.insert, Dictionary.get?_cons, h]

end Context

end Stencil
