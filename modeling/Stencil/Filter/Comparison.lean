import Stencil.Filter.Operand
import Stencil.Text.Glob

/-!
# Comparisons

The filter `cond` of the namespace `cond` compares its input with an operand. This file fixes the
operators (`Operator`), when one holds between two values (`Operator.test`), and what the operand
is (`operand`): a single argument is a literal; several are a key, if the keys at hand own it, and
else one literal that held colons.
-/

namespace Stencil

/-- How two values are compared. -/
inductive Operator where
  | stringEquals
  | stringNotEquals
  | stringEqualsIgnoreCase
  | stringLike
  | numberEquals
  | numberNotEquals
  | numberLessThan
  | numberLessThanEquals
  | numberGreaterThan
  | numberGreaterThanEquals
  | bool
  | null
  deriving DecidableEq, Repr

namespace Operator

/-! ## 1. Names -/

/-- The operator of a name. -/
def parse? (name : String) : Option Operator :=
  match name with
  | "StringEquals" => some .stringEquals
  | "StringNotEquals" => some .stringNotEquals
  | "StringEqualsIgnoreCase" => some .stringEqualsIgnoreCase
  | "StringLike" => some .stringLike
  | "NumberEquals" => some .numberEquals
  | "NumberNotEquals" => some .numberNotEquals
  | "NumberLessThan" => some .numberLessThan
  | "NumberLessThanEquals" => some .numberLessThanEquals
  | "NumberGreaterThan" => some .numberGreaterThan
  | "NumberGreaterThanEquals" => some .numberGreaterThanEquals
  | "Bool" => some .bool
  | "Null" => some .null
  | _ => none

/-! ## 2. Tests -/

/-- The name of the filter in its complaints. -/
def filterName : String := "cond"

/-- A test of two values as texts. -/
def testTexts (left right : Value) (test : String → String → Bool) : Outcome Bool :=
  match Filter.scalarText filterName left with
  | .error e => .error e
  | .ok s =>
    match Filter.scalarText filterName right with
    | .error e => .error e
    | .ok t => .ok (test s t)

/-- The order of two doubles; NaN has none. -/
def orderOf (x y : Float) : Option Ordering :=
  if x < y then some .lt else if y < x then some .gt else if x == y then some .eq else none

/-- A test of two values as numbers, by their equality as numbers and their order as doubles. It
    fails to hold where a value is null or a number is NaN. -/
def testNumbers (left right : Value) (test : Bool → Ordering → Bool) : Outcome Bool :=
  match Filter.number? filterName left with
  | .error e => .error e
  | .ok a =>
    match Filter.number? filterName right with
    | .error e => .error e
    | .ok b =>
      match a, b with
      | some a, some b =>
        match orderOf a.toFloat b.toFloat with
        | some order => .ok (test (a.same b) order)
        | none => .ok false
      | _, _ => .ok false

/-- Does an operator hold between two values? -/
def test (op : Operator) (left right : Value) : Outcome Bool :=
  match op with
  | .stringEquals => testTexts left right fun s t => s == t
  | .stringNotEquals => testTexts left right fun s t => s != t
  | .stringEqualsIgnoreCase => testTexts left right fun s t => Text.lower s == Text.lower t
  | .stringLike => testTexts left right fun s t => Glob.fits t.toList s.toList
  | .numberEquals => testNumbers left right fun equal _ => equal
  | .numberNotEquals => testNumbers left right fun equal _ => !equal
  | .numberLessThan => testNumbers left right fun _ order => order == .lt
  | .numberLessThanEquals => testNumbers left right fun _ order => order != .gt
  | .numberGreaterThan => testNumbers left right fun _ order => order == .gt
  | .numberGreaterThanEquals => testNumbers left right fun _ order => order != .lt
  | .bool => .ok (left.isTruthy == right.isTruthy)
  | .null => .ok (left.isNull == right.isTruthy)

end Operator

/-! ## 3. The filter -/

namespace Filter.Comparison

/-- The operand that the arguments behind the operator denote. -/
def operand (operator : String) (args : List String) (scope : Scope) : Outcome Value :=
  match args with
  | [] => .error (.typeMismatch (.missingOperand operator))
  | [literal] => .ok (.text literal)
  | space :: rest =>
    let key : Key := ⟨space, ":".intercalate rest⟩
    if scope.keys.owns key then scope.resolve key else .ok (.text (":".intercalate (space :: rest)))

/-- Does the operator of the first argument hold between the input and the operand? -/
def cond : Filter :=
  fun v args scope =>
    match args with
    | [] => .error (.typeMismatch (.missingArgument Operator.filterName 1))
    | name :: rest =>
      match Operator.parse? name with
      | none => .error (.typeMismatch (.unknownOperator name))
      | some op =>
        match operand name rest scope with
        | .error e => .error e
        | .ok right => (op.test v right).map .bool

/-- The comparing filter with its name. -/
def family : List (String × Filter) :=
  [("cond", cond)]

end Filter.Comparison

end Stencil
