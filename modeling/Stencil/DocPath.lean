import Stencil.Decimal.Literal

/-!
# Paths in a document

A path leads from the root of a document to one of its nodes. This file fixes its steps
(`Segment`) and its text (`DocPath.text`): every step behind a slash, with the tilde and the slash
of a field name escaped.
-/

namespace Stencil

/-- A step in a document: to an element of a sequence or to a field of an object. -/
inductive Segment where
  | index (i : Nat)
  | field (name : String)
  deriving DecidableEq, Repr

/-- A path from the root of a document. -/
structure DocPath where
  segments : List Segment
  deriving DecidableEq, Repr, Inhabited

namespace DocPath

/-- The path to the root. -/
def root : DocPath := ⟨[]⟩

/-- The path to a field of the node at a path. -/
def field (p : DocPath) (name : String) : DocPath :=
  ⟨p.segments ++ [.field name]⟩

/-- The path to an element of the node at a path. -/
def index (p : DocPath) (i : Nat) : DocPath :=
  ⟨p.segments ++ [.index i]⟩

/-- The number of steps. -/
def depth (p : DocPath) : Nat :=
  p.segments.length

/-- Is this the path to the root? -/
def isRoot (p : DocPath) : Bool :=
  p.segments.isEmpty

/-- A character of a field name in the text of a path. -/
def escapeChar (c : Char) : List Char :=
  if c = '~' then ['~', '0'] else if c = '/' then ['~', '1'] else [c]

/-- A step in the text of a path. -/
def segmentText : Segment → String
  | .index i => "/" ++ Decimal.naturalText i
  | .field name => "/" ++ String.ofList (name.toList.flatMap escapeChar)

/-- Steps in the text of a path. -/
def segmentsText : List Segment → String
  | [] => ""
  | s :: rest => segmentText s ++ segmentsText rest

/-- The text of a path. -/
def text (p : DocPath) : String :=
  if p.segments = [] then "/" else segmentsText p.segments

end DocPath

end Stencil
