/-!
# Decimal literals

This file fixes how digits are written and read:

* `digitsOf` and `integerText` write a natural number and an integer;
* `natOf` gives the value of a run of digits, `integer?` reads an integer with an optional sign,
  and `natural?` a natural number;
* `Literal.scan` reads the common shape of all decimal literals, digits with an optional point and
  an optional exponent, and `Literal.decimal` gives its value as `digits · 10^exponent`;
* `Decimal.toFloat` is the double nearest to such a value.
-/

namespace Stencil

/-! ## 1. Digits -/

namespace Decimal

/-- The decimal digits of a natural number. -/
def digitsOf (n : Nat) : List Char :=
  Nat.toDigits 10 n

/-- A natural number in decimal. -/
def naturalText (n : Nat) : String :=
  String.ofList (digitsOf n)

/-- An integer in decimal, with a minus sign if it is negative. -/
def integerText (i : Int) : String :=
  if i < 0 then "-" ++ naturalText i.natAbs else naturalText i.natAbs

/-- The value of a run of digits. -/
def natOf (digits : List Char) : Nat :=
  Nat.ofDigitChars 10 digits 0

/-- **Digits read back**: the value of the digits of a number is the number. -/
@[simp] theorem natOf_digitsOf (n : Nat) : natOf (digitsOf n) = n :=
  Nat.ofDigitChars_toDigits (by decide) (by decide)

/-- Takes an optional sign off: is there a minus, and what follows? -/
def takeSign : List Char → Bool × List Char
  | '-' :: rest => (true, rest)
  | '+' :: rest => (false, rest)
  | cs => (false, cs)

/-- The integer a text denotes: an optional sign and one digit or more. -/
def integer? (cs : List Char) : Option Int :=
  let (negative, digits) := takeSign cs
  if digits ≠ [] ∧ digits.all Char.isDigit then
    some (if negative then -(natOf digits : Int) else (natOf digits : Int))
  else none

/-- The natural number a text denotes: an optional plus and one digit or more. -/
def natural? (cs : List Char) : Option Nat :=
  let digits := match cs with
    | '+' :: rest => rest
    | cs => cs
  if digits ≠ [] ∧ digits.all Char.isDigit then some (natOf digits) else none

end Decimal

/-! ## 2. Values -/

/-- The decimal number `digits · 10^exponent`. -/
structure Decimal where
  digits : Nat
  exponent : Int
  deriving DecidableEq, Repr

namespace Decimal

/-- The double nearest to a decimal number. A number that exceeds every double by far is infinite,
    and one far below the least positive double is zero: the exact rounding is asked only where
    its powers of ten are small. -/
def toFloat (negative : Bool) (d : Decimal) : Float :=
  let size : Int := d.digits.log2 / 3 + 1
  let magnitude : Float :=
    if d.digits = 0 ∨ size + d.exponent < -400 then 0.0
    else if 400 < d.exponent then 1.0 / 0.0
    else Float.ofScientific d.digits (d.exponent < 0) d.exponent.natAbs
  if negative then -magnitude else magnitude

end Decimal

/-! ## 3. Literals -/

/-- The parts of a decimal literal without its sign: the digits before the point, those after it
    (`none` without a point) and the exponent (`none` without an `e`). -/
structure Literal where
  whole : List Char
  fraction : Option (List Char)
  exponent : Option Int
  deriving DecidableEq, Repr

namespace Literal

/-- Reads the digits after a point, if there is one. -/
def scanFraction : List Char → Option (List Char) × List Char
  | '.' :: rest => (some (rest.takeWhile Char.isDigit), rest.dropWhile Char.isDigit)
  | cs => (none, cs)

/-- Reads an exponent, if there is one. An `e` without digits behind it is refused. -/
def scanExponent : List Char → Option (Option Int × List Char)
  | [] => some (none, [])
  | c :: rest =>
    if c = 'e' ∨ c = 'E' then
      let (negative, after) := Decimal.takeSign rest
      let digits := after.takeWhile Char.isDigit
      if digits = [] then none
      else
        let size : Int := Decimal.natOf digits
        some (some (if negative then -size else size), after.dropWhile Char.isDigit)
    else some (none, c :: rest)

/-- Reads a literal from the front of the input; gives it and what follows. -/
def scan (cs : List Char) : Option (Literal × List Char) :=
  let (fraction, afterFraction) := scanFraction (cs.dropWhile Char.isDigit)
  (scanExponent afterFraction).map fun (exponent, rest) =>
    (⟨cs.takeWhile Char.isDigit, fraction, exponent⟩, rest)

/-- All digits of a literal. -/
def digits (l : Literal) : List Char :=
  l.whole ++ l.fraction.getD []

/-- The value of a literal. -/
def decimal (l : Literal) : Decimal :=
  ⟨Decimal.natOf l.digits, l.exponent.getD 0 - (l.fraction.getD []).length⟩

end Literal

end Stencil
