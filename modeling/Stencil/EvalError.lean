import Stencil.Diagnostic
import Stencil.Key
import Stencil.Value

/-!
# Errors of evaluation

This file fixes why an evaluation can fail (`EvalError`), with the code and the message of each
cause. What a handler or a filter objects to in its operands is a `Mismatch`, and what cannot be
repeated over is a `NotSequence`.
-/

namespace Stencil

/-- An operand of the wrong type or out of range. -/
inductive Mismatch where
  /-- A name of the number namespace that is no number. -/
  | nameNotNumber (name : String)
  /-- Too few arguments; the filter needs `needed`. -/
  | missingArgument (filter : String) (needed : Nat)
  /-- A collection where a scalar is needed. -/
  | notScalar (filter : String) (found : Value.Kind)
  /-- A text where a number is needed, and the text is none. -/
  | textNotNumber (filter text : String)
  /-- Something else where a number is needed. -/
  | notNumber (filter : String) (found : Value.Kind)
  /-- A result beyond all doubles. -/
  | notFinite (filter : String)
  | divisionByZero
  /-- A number of digits out of range. -/
  | roundDigits
  /-- A scalar without a size. -/
  | notSized (found : Value.Kind)
  | unknownOperator (name : String)
  /-- A comparison with nothing to compare to. -/
  | missingOperand (operator : String)
  /-- A branch of an object that is no mapping. -/
  | branchNotMapping (found : Value.Kind)
  /-- What a handler or a filter from outside this library objects to. -/
  | custom (message : String)
  deriving DecidableEq, Repr

/-- What is wrong with an operand. -/
def Mismatch.message : Mismatch → String
  | .nameNotNumber name => "'" ++ name ++ "' is not a number"
  | .missingArgument filter needed =>
    filter ++ " expects at least " ++ Decimal.naturalText needed ++ " argument(s)"
  | .notScalar filter found => filter ++ " expects a scalar, got " ++ found.name
  | .textNotNumber filter text => filter ++ ": '" ++ text ++ "' is not a number"
  | .notNumber filter found => filter ++ " expects a number, got " ++ found.name
  | .notFinite filter => filter ++ " produced a non-finite result"
  | .divisionByZero => "divide by zero"
  | .roundDigits => "round expects 0..=15 digits"
  | .notSized found => "size expects text or a collection, got " ++ found.name
  | .unknownOperator name => "unknown comparison operator '" ++ name ++ "'"
  | .missingOperand operator => "cond:" ++ operator ++ " expects an operand"
  | .branchNotMapping found =>
    "@container branch produced " ++ found.name ++ ", expected a mapping"
  | .custom message => message

/-- Something else where a sequence is needed. -/
inductive NotSequence where
  /-- The source of a repetition. -/
  | source (found : Value.Kind)
  /-- What a handler or a filter from outside this library objects to. -/
  | custom (message : String)
  deriving DecidableEq, Repr

/-- What is there instead of a sequence. -/
def NotSequence.message : NotSequence → String
  | .source found => "@repeat source is " ++ found.name ++ ", expected a sequence"
  | .custom message => message

/-- Why an evaluation failed. -/
inductive EvalError where
  /-- No handler owns the key. -/
  | unresolvedKey (key : Key)
  /-- No filter has the name. -/
  | unknownFilter (name : String)
  /-- What is repeated over is no sequence. -/
  | notIterable (cause : NotSequence)
  /-- An operand does not fit. -/
  | typeMismatch (cause : Mismatch)
  /-- The whole document is absent. -/
  | noMatchingClause
  /-- The limit of steps is exceeded. -/
  | gasExhausted
  deriving DecidableEq, Repr

namespace EvalError

/-- The code of an error. -/
def code : EvalError → ErrorCode
  | .unresolvedKey _ => .unresolvedKey
  | .unknownFilter _ => .unknownFilter
  | .notIterable _ => .notIterable
  | .typeMismatch _ => .typeMismatch
  | .noMatchingClause => .noMatchingClause
  | .gasExhausted => .gasExhausted

/-- The message of an error. -/
def message : EvalError → String
  | .unresolvedKey key => "unresolved key: " ++ key.text
  | .unknownFilter name => "unknown filter: " ++ name
  | .notIterable cause => "not iterable: " ++ cause.message
  | .typeMismatch cause => "type mismatch: " ++ cause.message
  | .noMatchingClause => "no matching clause at document root"
  | .gasExhausted => "gas exhausted"

end EvalError

/-- A result, or why there is none. -/
abbrev Outcome (α : Type) := Except EvalError α

end Stencil
