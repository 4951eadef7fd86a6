import Stencil.Decimal.Binary64
import Stencil.Decimal.Literal

/-!
# The shortest digits of a double

The reals that round to a double form an interval around it. This file fixes which decimal number
stands for the double: one with the fewest digits in that interval, and among those the nearest to
the double (`Binary64.shortest`). Where two are equally near, the format decides (`Tie`). A
`Layout` then says how the digits are written out.

All arithmetic is on natural numbers: a bound of the interval is a numerator over a common
denominator.
-/

namespace Stencil

/-- Which of two equally near numbers is taken: the larger, or the one with the even digit. -/
inductive Tie where
  | up
  | toEven
  deriving DecidableEq, Repr

namespace Binary64

/-! ## 1. The interval -/

/-- The numerators of the lower end, of the double itself and of the upper end, and their common
    denominator. -/
structure Interval where
  lower : Nat
  value : Nat
  upper : Nat
  denominator : Nat
  /-- Do the ends round to the double, too? -/
  closed : Bool
  deriving Repr

/-- The interval of reals that round to the absolute value of a double. -/
def interval (b : Binary64) : Interval :=
  let unit := Nat.pow 2 (b.exponent - 2).toNat
  { lower := (4 * b.mantissa - if b.narrowBelow then 1 else 2) * unit
    value := 4 * b.mantissa * unit
    upper := (4 * b.mantissa + 2) * unit
    denominator := Nat.pow 2 (2 - b.exponent).toNat
    closed := b.mantissa % 2 = 0 }

/-- Does the decimal number lie in the interval? -/
def Interval.holds (i : Interval) (d : Decimal) : Bool :=
  let point := d.digits * Nat.pow 10 d.exponent.toNat * i.denominator
  let scale := Nat.pow 10 (-d.exponent).toNat
  if i.closed then i.lower * scale ≤ point && point ≤ i.upper * scale
  else i.lower * scale < point && point < i.upper * scale

/-! ## 2. The digits -/

/-- The exponent of the leading digit of a positive fraction. -/
def leadingExponent (numerator denominator : Nat) : Int :=
  if denominator ≤ numerator then (Decimal.digitsOf (numerator / denominator)).length - 1
  else -((Decimal.digitsOf ((denominator - 1) / numerator)).length : Int)

/-- The decimal number that stands for the double on the grid `10^exponent`, if one of the
    double's two neighbours there lies in the interval. -/
def onGrid (tie : Tie) (i : Interval) (exponent : Int) : Option Decimal :=
  let numerator := i.value * Nat.pow 10 (-exponent).toNat
  let denominator := i.denominator * Nat.pow 10 exponent.toNat
  let below := numerator / denominator
  let twiceRest := 2 * (numerator % denominator)
  let down : Decimal := ⟨below, exponent⟩
  let up : Decimal := ⟨below + 1, exponent⟩
  match i.holds down, i.holds up with
  | false, false => none
  | true, false => some down
  | false, true => some up
  | true, true =>
    if twiceRest < denominator then some down
    else if denominator < twiceRest then some up
    else match tie with
      | .up => some up
      | .toEven => if below % 2 = 0 then some down else some up

/-- A decimal number without zeros at the end of its digits. -/
def stripZeros : Nat → Decimal → Decimal
  | 0, d => d
  | fuel + 1, d =>
    if d.digits ≠ 0 ∧ d.digits % 10 = 0 then stripZeros fuel ⟨d.digits / 10, d.exponent + 1⟩ else d

/-- The shortest decimal number that rounds to the absolute value of a double; seventeen digits
    always suffice. -/
def shortest (tie : Tie) (b : Binary64) : Decimal :=
  if b.mantissa = 0 then ⟨0, 0⟩
  else
    let i := b.interval
    let top := leadingExponent i.value i.denominator
    let found := (List.range 17).findSome? fun n : Nat => onGrid tie i (top - (n : Int))
    stripZeros 17 (found.getD ⟨0, 0⟩)

end Binary64

/-! ## 3. Layouts -/

/-- How the digits of a double are written. -/
structure Layout where
  tie : Tie
  /-- What is written behind a number without a fraction. -/
  wholeSuffix : String
  /-- Is a number written out, with its leading digit at this power of ten, or in scientific
      form? -/
  writtenOut : Int → Bool

namespace Layout

/-- Digits with a point where `exponent` puts it. -/
def positional (l : Layout) (digits : List Char) (exponent : Int) : String :=
  if 0 ≤ exponent then
    String.ofList (digits ++ List.replicate exponent.toNat '0') ++ l.wholeSuffix
  else
    let places := (-exponent).toNat
    let padded := List.replicate (places + 1 - digits.length) '0' ++ digits
    String.ofList (padded.take (padded.length - places)) ++ "." ++
      String.ofList (padded.drop (padded.length - places))

/-- One digit before the point and a signed exponent. -/
def scientific (digits : List Char) (top : Int) : String :=
  let mantissa := match digits with
    | c :: d :: rest => String.ofList (c :: '.' :: d :: rest)
    | cs => String.ofList cs
  mantissa ++ "e" ++ (if top < 0 then "-" else "+") ++ Decimal.naturalText top.natAbs

/-- A finite double in a layout. -/
def render (l : Layout) (b : Binary64) : String :=
  let d := b.shortest l.tie
  let digits := Decimal.digitsOf d.digits
  let top := d.exponent + digits.length - 1
  (if b.negative then "-" else "") ++
    if l.writtenOut top then l.positional digits d.exponent else scientific digits top

end Layout

end Stencil
