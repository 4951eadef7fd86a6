import Stencil.Document.Parse
import Stencil.Marker.Template
import Stencil.Value.Json

/-!
# Predicates

What stands under `@if`: a text, a truth value, or a condition object

    { operator: { key: literal, ... }, ... }

which holds if every entry does, and where a sequence of literals asks for one of them. This file
fixes the expression of a predicate (`Condition.predicate`). A comparison is a call of the key with
the filter `cond`, whose arguments are the operator and the literal as text.
-/

namespace Stencil

/-- The expression that the text at a path denotes. -/
def Parse.text (s : String) (path : DocPath) : Parse Expr :=
  match Template.read s path with
  | .ok e => Parse.pure e
  | .error r => Parse.refuseAll r

namespace Condition

/-! ## 1. Comparisons -/

/-- The name of the comparing filter. -/
def filterName : String := "cond"

/-- The comparison of a key with a literal. -/
def compare (key : Key) (operator literal : String) : Expr :=
  .call ⟨key, [⟨filterName, [operator, literal]⟩]⟩

/-- The text of a literal. -/
def literal (path : DocPath) (tree : Json) : Parse String :=
  match tree with
  | .array _ => .refuse ((Fault.literalNotScalar tree.kind).on path)
  | .object _ => .refuse ((Fault.literalNotScalar tree.kind).on path)
  | _ => .pure (Value.ofJson tree).display

/-- The comparisons of a key with the literals of a sequence, the first of which is at an index. -/
def alternatives (key : Key) (operator : String) (path : DocPath) :
    Nat → List Json → Parse (List Expr)
  | _, [] => .pure []
  | i, tree :: rest =>
    ((literal (path.index i) tree).both (alternatives key operator path (i + 1) rest)).map
      fun (text, others) => compare key operator text :: others

/-- The comparison that an entry stands for. -/
def entry (operator : String) (path : DocPath) (name : String) (tree : Json) : Parse Expr :=
  match Key.parse? name with
  | none => .refuse ((Fault.missingNamespace name).on (path.field name))
  | some key =>
    match tree with
    | .array options => (alternatives key operator (path.field name) 0 options).map .any
    | _ => (literal (path.field name) tree).map (compare key operator)

/-! ## 2. Condition objects -/

/-- The comparisons under an operator. -/
def entries (operator : String) (path : DocPath) : List (String × Json) → Parse (List Expr)
  | [] => .pure []
  | (name, tree) :: rest =>
    ((entry operator path name tree).both (entries operator path rest)).map
      fun (first, others) => first :: others

/-- The comparisons of all operators. -/
def operators (path : DocPath) : List (String × Json) → Parse (List Expr)
  | [] => .pure []
  | (operator, .object fields) :: rest =>
    ((entries operator (path.field operator) fields).both (operators path rest)).map
      fun (first, others) => first ++ others
  | (operator, _) :: rest =>
    (Parse.refuse ((Fault.conditionNotObject operator).on (path.field operator)) :
      Parse Unit).andThen (operators path rest)

/-- The conjunction of comparisons; a single one stands for itself. -/
def conjunction (path : DocPath) (found : List Expr) : Parse Expr :=
  match found with
  | [] => .refuse (Fault.conditionEmpty.on path)
  | [only] => .pure only
  | several => .pure (.all several)

/-- The expression of a condition object. That it has no conditions is reported only if nothing
    else is wrong with it. -/
def object (path : DocPath) (fields : List (String × Json)) : Parse Expr :=
  fun options depth found =>
    match operators path fields options depth found with
    | (none, after) => (none, after)
    | (some comparisons, after) => conjunction path comparisons options depth after

/-! ## 3. Predicates -/

/-- The expression of what stands under `@if`. -/
def predicate (path : DocPath) : Json → Parse Expr
  | .text s => Parse.text s path
  | .bool b => .pure (.const (.bool b))
  | .object fields => object path fields
  | .null => .refuse ((Fault.predicateMalformed .null).on path)
  | .number _ => .refuse ((Fault.predicateMalformed .number).on path)
  | .array _ => .refuse ((Fault.predicateMalformed .sequence).on path)

end Condition

end Stencil
