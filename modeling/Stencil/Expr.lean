import Stencil.Key
import Stencil.Value

/-!
# Expressions

A parsed document. This file fixes the tree (`Expr`), in which every directive has a form of its
own, and what is read off a tree without evaluating it: the single call that keeps the type of its
value (`asSingleCall?`), whether there are directives at all (`isDirectiveFree`) and the calls in
the order in which they are written (`calls`).
-/

namespace Stencil

/-! ## 1. Calls -/

/-- A filter with its arguments, as a marker names them. -/
structure FilterCall where
  name : String
  args : List String
  deriving DecidableEq, Repr

/-- The namespace and the name of a filter that is named with both. -/
def FilterCall.qualified? (f : FilterCall) : Option (String × String) :=
  (Text.splitFirst '.' f.name.toList).map fun (space, name) =>
    (String.ofList space, String.ofList name)

/-- A key and the filters its value goes through. -/
structure Call where
  key : Key
  filters : List FilterCall
  deriving DecidableEq, Repr

/-- A part of a text: literal, or the value of a call. -/
inductive Piece where
  | text (s : String)
  | call (c : Call)
  deriving DecidableEq, Repr

/-! ## 2. Trees -/

mutual

/-- A parsed document. -/
inductive Expr where
  /-- A value. -/
  | const (v : Value)
  /-- A text with markers. -/
  | interpolated (pieces : List Piece)
  /-- The value of a call. -/
  | call (c : Call)
  /-- An object. -/
  | tree (entries : List Entry)
  /-- A sequence. -/
  | list (items : List Expr)
  /-- A body for each element of a source. -/
  | repetition (source body : Expr)
  /-- The result of the first clause whose predicate holds. -/
  | conditional (clauses : List Clause)
  /-- Do all predicates hold? -/
  | all (predicates : List Expr)
  /-- Does some predicate hold? -/
  | any (predicates : List Expr)

/-- A part of an object: a field, or the fields of another object. -/
inductive Entry where
  | field (name : String) (e : Expr)
  | merge (e : Expr)

/-- A result, under a predicate or without condition. -/
inductive Clause where
  | mk (predicate : Option Expr) (result : Expr)

end

namespace Expr

/-- A text without markers. -/
def text (s : String) : Expr :=
  .const (.text s)

/-! ## 3. Static readings -/

/-- The call that is the whole expression. -/
def asSingleCall? : Expr → Option Call
  | .interpolated [.call c] => some c
  | .call c => some c
  | _ => none

mutual

/-- Does the expression come from a document without directives? -/
def isDirectiveFree : Expr → Bool
  | .const _ => true
  | .interpolated _ => true
  | .call _ => true
  | .tree entries => entriesDirectiveFree entries
  | .list items => itemsDirectiveFree items
  | .repetition _ _ => false
  | .conditional _ => false
  | .all _ => false
  | .any _ => false

/-- The same of the entries of an object. -/
def entriesDirectiveFree : List Entry → Bool
  | [] => true
  | .field _ e :: rest => isDirectiveFree e && entriesDirectiveFree rest
  | .merge _ :: _ => false

/-- The same of the elements of a sequence. -/
def itemsDirectiveFree : List Expr → Bool
  | [] => true
  | e :: rest => isDirectiveFree e && itemsDirectiveFree rest

end

/-- The calls in the parts of a text. -/
def pieceCalls : List Piece → List Call
  | [] => []
  | .text _ :: rest => pieceCalls rest
  | .call c :: rest => c :: pieceCalls rest

mutual

/-- The calls of an expression, in the order in which they are written. -/
def calls : Expr → List Call
  | .const _ => []
  | .interpolated pieces => pieceCalls pieces
  | .call c => [c]
  | .tree entries => entryCalls entries
  | .list items => itemCalls items
  | .repetition source body => calls source ++ calls body
  | .conditional clauses => clauseCalls clauses
  | .all predicates => itemCalls predicates
  | .any predicates => itemCalls predicates

/-- The calls of the entries of an object. -/
def entryCalls : List Entry → List Call
  | [] => []
  | .field _ e :: rest => calls e ++ entryCalls rest
  | .merge e :: rest => calls e ++ entryCalls rest

/-- The calls of the members of a list. -/
def itemCalls : List Expr → List Call
  | [] => []
  | e :: rest => calls e ++ itemCalls rest

/-- The calls of clauses, each predicate before its result. -/
def clauseCalls : List Clause → List Call
  | [] => []
  | .mk none result :: rest => calls result ++ clauseCalls rest
  | .mk (some predicate) result :: rest => calls predicate ++ calls result ++ clauseCalls rest

end

end Expr

end Stencil
