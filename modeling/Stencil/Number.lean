import Stencil.Decimal.Shortest
import Stencil.Text.Blank

/-!
# Numbers

A number is a 64-bit integer or a double. This file fixes when a text denotes one (`Number.parse?`:
an integer if it reads as one, else a finite double), when a double is kept as an integer
(`Number.ofFloat?`), how a number is written (`Number.text`) and how two are compared: integers
with integers exactly, all other pairs as doubles.
-/

namespace Stencil

/-- A number. -/
inductive Number where
  | int (i : Int64)
  | float (x : Float)

namespace Number

/-! ## 1. Integers -/

/-- The 64-bit integer with a value, if that value is in range. -/
def int64? (i : Int) : Option Int64 :=
  if Int64.minValue.toInt ≤ i ∧ i ≤ Int64.maxValue.toInt then some (Int64.ofInt i) else none

theorem toInt_of_int64? {i : Int} {a : Int64} (h : int64? i = some a) : a.toInt = i := by
  unfold int64? at h
  split at h
  · rename_i hi
    simp only [Option.some.injEq] at h
    rw [← h]
    rw [Int64.toInt_minValue, Int64.toInt_maxValue] at hi
    exact Int64.toInt_ofInt_of_le (by omega) (by omega)
  · simp at h

/-- The integer that a double is, if it is a whole number of absolute value below `2^63`. -/
def wholeOf? (x : Float) : Option Int64 :=
  match (Binary64.ofFloat? x).bind Binary64.toInt? with
  | some i => if i.natAbs < Nat.pow 2 63 then some (Int64.ofInt i) else none
  | none => none

/-! ## 2. Conversions -/

/-- The double nearest to a number. -/
def toFloat : Number → Float
  | .int i => Float.ofInt i.toInt
  | .float x => x

/-- The number a double is: an integer where that is possible; infinities and NaN are none. -/
def ofFloat? (x : Float) : Option Number :=
  if x.isFinite then
    match wholeOf? x with
    | some i => some (.int i)
    | none => some (.float x)
  else none

/-- The integer that a number is. -/
def toInt64? : Number → Option Int64
  | .int i => some i
  | .float x => wholeOf? x

/-- Is the number zero, of either sign? -/
def isZero (n : Number) : Bool :=
  n.toFloat == 0.0

/-- Equality of numbers: of integers by value, of all others as doubles. -/
def same : Number → Number → Bool
  | .int a, .int b => a == b
  | a, b => a.toFloat == b.toFloat

/-! ## 3. Reading -/

/-- The double a run of characters denotes: an optional sign, digits with an optional point (one
    digit at least), an optional exponent, and nothing else. -/
def float? (cs : List Char) : Option Float :=
  let (negative, unsigned) := Decimal.takeSign cs
  match Literal.scan unsigned with
  | some (l, []) => if l.digits = [] then none else some (l.decimal.toFloat negative)
  | _ => none

/-- The number a text denotes, white space at its ends aside: an integer if the text is one and it
    fits 64 bits, else a finite double. -/
def parse? (s : String) : Option Number :=
  let cs := Text.trimChars s.toList
  match (Decimal.integer? cs).bind int64? with
  | some i => some (.int i)
  | none =>
    match float? cs with
    | some x => if x.isFinite then some (.float x) else none
    | none => none

/-! ## 4. Writing -/

/-- Doubles in texts have the shortest digits, of two equally near the larger, and are written out
    whatever their size, without a point where there is no fraction. -/
def textLayout : Layout where
  tie := .up
  wholeSuffix := ""
  writtenOut := fun _ => true

/-- A double as text. -/
def floatText (x : Float) : String :=
  match Binary64.ofFloat? x with
  | some b => textLayout.render b
  | none => if x.isNaN then "NaN" else if x < 0.0 then "-inf" else "inf"

/-- A number as text. -/
def text : Number → String
  | .int i => Decimal.integerText i.toInt
  | .float x => floatText x

end Number

end Stencil
