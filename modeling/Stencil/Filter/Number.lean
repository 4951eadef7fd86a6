import Stencil.Filter.Operand

/-!
# Number filters

The filters of the namespace `number`. Null passes through them. Integers stay integers as long as
the result fits 64 bits; otherwise the operation is done on doubles, and a whole result becomes an
integer again.
-/

namespace Stencil.Filter.Number

open Stencil (Number)

/-- The value of a double; infinities and NaN are refused. -/
def finite (filter : String) (x : Float) : Outcome Value :=
  match Number.ofFloat? x with
  | some n => .ok (.number n)
  | none => .error (.typeMismatch (.notFinite filter))

/-- Two integers under an exact operation, if the result fits 64 bits. -/
def wholeResult? (op : Int → Int → Int) (a b : Int64) : Option Int64 :=
  Number.int64? (op a.toInt b.toInt)

/-- Two numbers under an operation: exactly if both are integers and the result fits, else as
    doubles. -/
def combine (filter : String) (exactOp : Int → Int → Int) (floatOp : Float → Float → Float)
    (a b : Number) : Outcome Value :=
  match a, b with
  | .int i, .int j =>
    match wholeResult? exactOp i j with
    | some k => .ok (.number (.int k))
    | none => finite filter (floatOp a.toFloat b.toFloat)
  | _, _ => finite filter (floatOp a.toFloat b.toFloat)

/-- The filter that computes with its input and its first argument. -/
def arithmetic (filter : String) (exactOp : Int → Int → Int)
    (floatOp : Float → Float → Float) : Filter :=
  fun v args _ =>
    match number? filter v with
    | .error e => .error e
    | .ok none => .ok .null
    | .ok (some a) =>
      match numberArgument filter args 0 with
      | .error e => .error e
      | .ok b => combine filter exactOp floatOp a b

/-- The sum. -/
def plus : Filter := arithmetic "plus" (· + ·) (· + ·)

/-- The difference. -/
def minus : Filter := arithmetic "minus" (· - ·) (· - ·)

/-- The product. -/
def multiply : Filter := arithmetic "multiply" (· * ·) (· * ·)

/-- The quotient of doubles; zero is refused. -/
def divide : Filter :=
  fun v args _ =>
    match number? "divide" v with
    | .error e => .error e
    | .ok none => .ok .null
    | .ok (some a) =>
      match numberArgument "divide" args 0 with
      | .error e => .error e
      | .ok b =>
        if b.isZero then .error (.typeMismatch .divisionByZero)
        else finite "divide" (a.toFloat / b.toFloat)

/-- The number of digits that a number asks for. -/
def digitCount (n : Number) : Outcome Nat :=
  match n.toInt64? with
  | some d =>
    if 0 ≤ d.toInt ∧ d.toInt ≤ 15 then .ok d.toInt.toNat else .error (.typeMismatch .roundDigits)
  | none => .error (.typeMismatch .roundDigits)

/-- The number of digits that the arguments ask for: none without an argument. -/
def roundDigits (args : List String) : Outcome Nat :=
  match args with
  | [] => .ok 0
  | _ :: _ =>
    match numberArgument "round" args 0 with
    | .error e => .error e
    | .ok n => digitCount n

/-- The number rounded to a number of digits, a half going away from zero. -/
def round : Filter :=
  fun v args _ =>
    match number? "round" v with
    | .error e => .error e
    | .ok none => .ok .null
    | .ok (some n) =>
      match roundDigits args with
      | .error e => .error e
      | .ok digits =>
        match n with
        | .int i => .ok (.number (.int i))
        | .float x =>
          let factor := Float.ofNat (Nat.pow 10 digits)
          finite "round" (roundHalfAway (x * factor) / factor)

/-- The number a value is. -/
def toNumber : Filter :=
  fun v _ _ => (number? "number" v).map fun
    | some n => .number n
    | none => .null

/-- The number filters with their names. -/
def family : List (String × Filter) :=
  [("plus", plus), ("minus", minus), ("multiply", multiply), ("divide", divide), ("round", round),
   ("number", toNumber)]

end Stencil.Filter.Number
