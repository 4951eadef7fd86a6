import Stencil.DocPath
import Stencil.Json

/-!
# Diagnostics

What is wrong with a document, and where. This file fixes

* the codes (`ErrorCode`) with their categories: the hundreds digit tells marker syntax, directives
  and evaluation apart;
* the faults a document can have (`Fault`), each with its code, its message and its suggestion;
* a diagnostic (`Diagnostic`), which is a fault at a place, as data that can be stored and loaded.
-/

namespace Stencil

/-! ## 1. Codes -/

/-- The part of the work that a code belongs to. -/
inductive Category where
  | syntactic
  | directive
  | evaluation
  deriving DecidableEq, Repr

/-- The name of a category. -/
def Category.name : Category → String
  | .syntactic => "syntax"
  | .directive => "directive"
  | .evaluation => "evaluation"

/-- The weight of a diagnostic. -/
inductive Severity where
  | error
  | warning
  deriving DecidableEq, Repr

/-- A code. -/
structure ErrorCode where
  number : UInt16
  deriving DecidableEq, Repr

namespace ErrorCode

/-- A marker without an end. -/
def unclosedMarker : ErrorCode := ⟨100⟩
/-- A marker without content. -/
def emptyMarker : ErrorCode := ⟨101⟩
/-- A key that is not complete. -/
def missingNamespace : ErrorCode := ⟨102⟩
/-- A filter without a name. -/
def emptyFilterName : ErrorCode := ⟨103⟩
/-- A marker inside a marker. -/
def nestedMarker : ErrorCode := ⟨104⟩
/-- A directive that holds what it cannot hold. -/
def malformedDirective : ErrorCode := ⟨200⟩
/-- A field that looks like a directive. -/
def unknownDirective : ErrorCode := ⟨201⟩
/-- A document that is too deep. -/
def structuralLimit : ErrorCode := ⟨202⟩
/-- A key that no handler owns. -/
def unresolvedKey : ErrorCode := ⟨300⟩
/-- A filter that is not registered. -/
def unknownFilter : ErrorCode := ⟨301⟩
/-- A repetition over something that is no sequence. -/
def notIterable : ErrorCode := ⟨302⟩
/-- An operand that does not fit. -/
def typeMismatch : ErrorCode := ⟨303⟩
/-- A document without a value. -/
def noMatchingClause : ErrorCode := ⟨304⟩
/-- An evaluation beyond its limit. -/
def gasExhausted : ErrorCode := ⟨305⟩

/-- The category of a code. -/
def category (c : ErrorCode) : Category :=
  if 100 ≤ c.number ∧ c.number ≤ 199 then .syntactic
  else if 200 ≤ c.number ∧ c.number ≤ 299 then .directive
  else .evaluation

/-- A code as text. -/
def text (c : ErrorCode) : String :=
  "E" ++ Decimal.naturalText c.number.toNat

end ErrorCode

/-! ## 2. Faults -/

/-- What can be wrong with a document. -/
inductive Fault where
  /-- A marker without an end. -/
  | unclosedMarker
  /-- A marker inside a marker. -/
  | nestedMarker
  /-- A marker without content. -/
  | emptyMarker
  /-- A key without a namespace or without a name. -/
  | missingNamespace (found : String)
  /-- A pipe without a filter behind it. -/
  | emptyFilterName
  /-- A field that starts like a directive and is none. -/
  | unknownDirective (name : String)
  /-- Nodes nested beyond the limit. -/
  | tooDeep (limit : Nat)
  /-- `@when` beside `@value`. -/
  | whenBesideValue
  /-- `@when` beside ordinary fields. -/
  | whenBesideFields
  /-- `@when` that holds no sequence. -/
  | whenNotSequence (found : Json.Kind)
  /-- A clause of `@when` that is no object. -/
  | clauseNotObject (found : Json.Kind)
  /-- `@container` that holds neither an object nor a sequence. -/
  | containerMalformed (found : Json.Kind)
  /-- A branch of `@container` that is no object. -/
  | branchNotObject (found : Json.Kind)
  /-- `@if` that holds no predicate. -/
  | predicateMalformed (found : Json.Kind)
  /-- An operator of a condition object that holds no object. -/
  | conditionNotObject (operator : String)
  /-- A comparison with a collection. -/
  | literalNotScalar (found : Json.Kind)
  /-- A condition object without conditions. -/
  | conditionEmpty

namespace Fault

/-- The code of a fault. -/
def code : Fault → ErrorCode
  | .unclosedMarker => .unclosedMarker
  | .nestedMarker => .nestedMarker
  | .emptyMarker => .emptyMarker
  | .missingNamespace _ => .missingNamespace
  | .emptyFilterName => .emptyFilterName
  | .unknownDirective _ => .unknownDirective
  | .tooDeep _ => .structuralLimit
  | _ => .malformedDirective

/-- The message of a fault. -/
def message : Fault → String
  | .unclosedMarker => "unclosed '$\x7b': expected '\x7d' before end of text"
  | .nestedMarker => "markers cannot be nested: found '$\x7b' inside a marker"
  | .emptyMarker => "empty marker '$\x7b\x7d'"
  | .missingNamespace found => "expected 'namespace:name', found '" ++ found ++ "'"
  | .emptyFilterName => "expected a filter name after '|'"
  | .unknownDirective name => "unknown directive '" ++ name ++ "'"
  | .tooDeep limit => "document nesting exceeds " ++ Decimal.naturalText limit ++ " levels"
  | .whenBesideValue => "@when cannot be combined with @value"
  | .whenBesideFields => "@when cannot be combined with sibling fields"
  | .whenNotSequence found => "@when expects a sequence of clauses, found " ++ found.description
  | .clauseNotObject found => "@when clause must be an object, found " ++ found.description
  | .containerMalformed found =>
    "@container expects an object or a sequence of objects, found " ++ found.description
  | .branchNotObject found => "@container branch must be an object, found " ++ found.description
  | .predicateMalformed found =>
    "@if expects an expression, a boolean or a condition object, found " ++ found.description
  | .conditionNotObject operator =>
    "condition '" ++ operator ++ "' expects an object of key/value pairs"
  | .literalNotScalar found => "condition value must be a scalar, found " ++ found.description
  | .conditionEmpty => "condition object has no conditions"

/-- What to do about a fault. -/
def suggestion : Fault → Option String
  | .unclosedMarker => none
  | .nestedMarker => none
  | .emptyMarker => none
  | .missingNamespace _ => some "qualify the key with a namespace, e.g. 'ns:name'"
  | .emptyFilterName => none
  | .unknownDirective _ => some "expected one of @if, @when, @value, @repeat, @container"
  | .tooDeep _ => some "flatten the document or raise max_depth"
  | .whenBesideValue => some "move the value into a clause"
  | .whenBesideFields => some "move the fields into each clause"
  | .whenNotSequence _ => some "wrap the clauses in [ ]"
  | .clauseNotObject _ => some "use \x7b \"@if\": ..., \"@value\": ... \x7d"
  | .containerMalformed _ =>
    some "use \x7b \"@when\": [...] \x7d or [ \x7b \"@if\": ... \x7d ]"
  | .branchNotObject _ => some "each branch is \x7b \"@if\": ..., fields... \x7d"
  | .predicateMalformed _ => some "use \"$\x7bns:key | cond:StringEquals:value\x7d\""
  | .conditionNotObject _ => some "use \x7b \"ns:name\": \"value\" \x7d"
  | .literalNotScalar _ => some "compare against text, a number, a boolean or null"
  | .conditionEmpty => some "add at least one \x7b \"Op\": \x7b \"ns:name\": value \x7d \x7d entry"

end Fault

/-! ## 3. Diagnostics -/

/-- A diagnostic. A column is the position of a character in a text, counted from one. -/
structure Diagnostic where
  code : ErrorCode
  severity : Severity
  category : Category
  message : String
  path : DocPath
  column : Option UInt32
  suggestion : Option String
  deriving DecidableEq, Repr

namespace Diagnostic

/-- An error with a code and a message at a path. -/
def error (code : ErrorCode) (message : String) (path : DocPath) : Diagnostic :=
  ⟨code, .error, code.category, message, path, none, none⟩

/-- The text of a diagnostic: where, the code, the category and the message. -/
def text (d : Diagnostic) : String :=
  d.path.text ++
    (match d.column with
      | some column => ":" ++ Decimal.naturalText column.toNat
      | none => "") ++
    ": " ++ d.code.text ++ " [" ++ d.category.name ++ "] " ++ d.message

end Diagnostic

namespace Fault

/-- A fault of the node at a path. -/
def on (f : Fault) (path : DocPath) : Diagnostic :=
  { Diagnostic.error f.code f.message path with suggestion := f.suggestion }

/-- A fault at a column of the text at a path. -/
def atColumn (f : Fault) (path : DocPath) (column : UInt32) : Diagnostic :=
  { f.on path with column := some column }

end Fault

end Stencil
