/-!
# Doubles, taken apart

A finite double is an integer times a power of two. This file fixes that reading (`Binary64`), and
on it, in exact arithmetic, what a double is as an integer (`toInt?`) and the integer nearest to it
(`roundHalfAway`).
-/

namespace Stencil

/-- The finite double `± mantissa · 2^exponent`. -/
structure Binary64 where
  negative : Bool
  mantissa : Nat
  exponent : Int
  /-- The double starts a range of exponents: the gap to the double below is half the gap to the
      one above. -/
  narrowBelow : Bool
  deriving DecidableEq, Repr

namespace Binary64

/-- The parts of a finite double; infinities and NaN have none. -/
def ofFloat? (x : Float) : Option Binary64 :=
  let bits := x.toBits.toNat
  let fraction : Nat := bits % Nat.pow 2 52
  let biased : Nat := bits / Nat.pow 2 52 % Nat.pow 2 11
  let negative := decide (Nat.pow 2 63 ≤ bits)
  if biased = 2047 then none
  else if biased = 0 then some ⟨negative, fraction, -1074, false⟩
  else some ⟨negative, Nat.pow 2 52 + fraction, (biased : Int) - 1075, fraction = 0 ∧ 1 < biased⟩

/-- The absolute value of a whole number; `none` if there is a fraction. -/
def natAbs? (b : Binary64) : Option Nat :=
  if 0 ≤ b.exponent then some (b.mantissa * Nat.pow 2 b.exponent.toNat)
  else
    let unit := Nat.pow 2 (-b.exponent).toNat
    if b.mantissa % unit = 0 then some (b.mantissa / unit) else none

/-- The integer that a double is; `none` if it has a fraction. -/
def toInt? (b : Binary64) : Option Int :=
  b.natAbs?.map fun n => if b.negative then -(n : Int) else (n : Int)

/-- The nearest integer to the absolute value, a half going up. -/
def nearestNat (b : Binary64) : Nat :=
  if 0 ≤ b.exponent then b.mantissa * Nat.pow 2 b.exponent.toNat
  else
    let unit := Nat.pow 2 (-b.exponent).toNat
    (2 * b.mantissa + unit) / (2 * unit)

end Binary64

/-- A double rounded to a whole one, a half going away from zero. Infinities and NaN stay. -/
def roundHalfAway (x : Float) : Float :=
  match Binary64.ofFloat? x with
  | none => x
  | some b => if b.negative then -Float.ofNat b.nearestNat else Float.ofNat b.nearestNat

end Stencil
