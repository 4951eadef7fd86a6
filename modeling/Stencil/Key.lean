import Stencil.Text.Blank
import Stencil.Text.Split

/-!
# Keys

A key `space:name` says what a marker asks for: a name in a namespace. This file fixes when a text
is a key (`Key.parse?`), how a key is written (`Key.text`) and the order of keys (`Key.le`).
-/

namespace Stencil

/-- A name in a namespace. -/
structure Key where
  space : String
  name : String
  deriving DecidableEq, Repr, Inhabited

namespace Key

/-- The name that stands for every name of a namespace. -/
def wildcardName : String := "*"

/-- The key that stands for every key of a namespace. -/
def wildcard (space : String) : Key :=
  ⟨space, wildcardName⟩

/-- Does the key stand for every key of its namespace? -/
def isWildcard (k : Key) : Bool :=
  k.name == wildcardName

/-- The key a run of characters denotes: what stands before the first colon and what stands behind
    it, both without blanks at their ends and both non-empty. -/
def ofChars? (cs : List Char) : Option Key :=
  match Text.splitFirst ':' cs with
  | none => none
  | some (space, name) =>
    let space := Text.trimChars space
    let name := Text.trimChars name
    if space = [] ∨ name = [] then none else some ⟨String.ofList space, String.ofList name⟩

/-- The key a text denotes. -/
def parse? (s : String) : Option Key :=
  ofChars? s.toList

/-- A key as text. -/
def text (k : Key) : String :=
  k.space ++ ":" ++ k.name

/-- The order of keys: by namespace, then by name, character by character. -/
def le (a b : Key) : Bool :=
  decide (a.space < b.space) || (a.space == b.space && !decide (b.name < a.name))

/-- Keys in their order. -/
def sort (keys : List Key) : List Key :=
  keys.mergeSort le

end Key

end Stencil
