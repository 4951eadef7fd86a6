import Stencil.Filter.Number
import Stencil.Filter.Comparison
import Stencil.Proofs.Decimal.Doubles
import Stencil.Proofs.Number

/-!
# Integers under comparisons and arithmetic

Numbers are 64-bit integers or doubles, and some operations take the way over doubles for integers
too. This file fixes what that does to integers, given as numbers or as texts (`Value.ReadsAs`):

* the tests for equality compare the integers themselves, the tests for order compare the doubles
  nearest to them; so the operators decide the order of two integers exactly where two different
  integers are not rounded to one double (`Operator.ordersIntegers_iff`);
* sums and differences are exact, and doubles where they do not fit 64 bits; a product that does
  not fit is a double exactly where it is still beyond 64 bits when it is rounded, which it is from
  `2 ^ 63 + 2 ^ 11` on and where both factors are doubles (`Filter.Number.computes_arithmetic`).
-/

namespace Stencil

open Binary64

/-! ## 1. Integers as operands -/

/-- The values that are read as an integer: the integer and the texts of it. -/
inductive Value.ReadsAs (a : Int64) : Value → Prop where
  | number : ReadsAs a (.number (.int a))
  | text {s : String} (h : Number.parse? s = some (.int a)) : ReadsAs a (.text s)

theorem Value.ReadsAs.number? {a : Int64} {v : Value} (h : v.ReadsAs a) (filter : String) :
    Filter.number? filter v = .ok (some (.int a)) := by
  cases h with
  | number => rfl
  | text h => rw [Filter.number?, h]

/-- The absolute value of a 64-bit integer. -/
theorem natAbs_toInt_le (a : Int64) : a.toInt.natAbs ≤ 2 ^ 63 := by
  have hlow := a.le_toInt
  have hhigh := a.toInt_lt
  omega

/-- A 64-bit integer is converted to the double nearest to it. -/
theorem Number.hasValue_toFloat (a : Int64) :
    HasValue (Number.int a).toFloat (nearestInt a.toInt) := by
  have hsize : a.toInt.natAbs.log2 ≤ 63 := log2_le_of_le (natAbs_toInt_le a)
  exact hasValue_ofInt (by omega)

/-! ## 2. Comparisons -/

namespace Operator

variable {left right : Value} {a b : Int64}

/-- The order of two doubles is that of their values. -/
theorem orderOf_of_hasValue {x y : Float} {i j : Int} (hx : HasValue x i) (hy : HasValue y j) :
    ∃ order : Ordering, orderOf x y = some order ∧ order.Compares i j := by
  unfold orderOf
  rcases Int.lt_trichotomy i j with hless | heq | hgreater
  · rw [if_pos ((hx.lt_iff hy).mpr hless)]
    exact ⟨.lt, rfl, hless⟩
  · rw [if_neg (mt (hx.lt_iff hy).mp (by omega)), if_neg (mt (hy.lt_iff hx).mp (by omega)),
      if_pos ((hx.beq_iff hy).mpr heq)]
    exact ⟨.eq, rfl, heq⟩
  · rw [if_neg (mt (hx.lt_iff hy).mp (by omega)), if_pos ((hy.lt_iff hx).mpr hgreater)]
    exact ⟨.gt, rfl, hgreater⟩

/-- A test of two integers: their equality, and the order of the doubles nearest to them. -/
theorem testNumbers_of_readsAs (hl : left.ReadsAs a) (hr : right.ReadsAs b) :
    ∃ order : Ordering, order.Compares (nearestInt a.toInt) (nearestInt b.toInt) ∧
      ∀ test, testNumbers left right test = .ok (test (a == b) order) := by
  obtain ⟨order, horder, hcompares⟩ :=
    orderOf_of_hasValue (Number.hasValue_toFloat a) (Number.hasValue_toFloat b)
  refine ⟨order, hcompares, fun test => ?_⟩
  rw [testNumbers, hl.number?, hr.number?]
  simp only [horder]
  rfl

/-- The tests for equality tell whether two integers are equal. -/
structure DecidesEquality (left right : Value) (i j : Int) : Prop where
  equals : numberEquals.test left right = .ok (decide (i = j))
  notEquals : numberNotEquals.test left right = .ok (decide (i ≠ j))

/-- The tests for order tell the order of two integers. -/
structure DecidesOrder (left right : Value) (i j : Int) : Prop where
  less : numberLessThan.test left right = .ok (decide (i < j))
  lessEquals : numberLessThanEquals.test left right = .ok (decide (i ≤ j))
  greater : numberGreaterThan.test left right = .ok (decide (j < i))
  greaterEquals : numberGreaterThanEquals.test left right = .ok (decide (j ≤ i))

/-- Exactly one of less, equal and greater holds. -/
def Trichotomy (left right : Value) : Prop :=
  ∃! op : Operator, (op = numberLessThan ∨ op = numberEquals ∨ op = numberGreaterThan) ∧
    op.test left right = .ok true

/-- The tests for equality compare the integers themselves. -/
theorem decidesEquality (hl : left.ReadsAs a) (hr : right.ReadsAs b) :
    DecidesEquality left right a.toInt b.toInt := by
  obtain ⟨order, -, htest⟩ := testNumbers_of_readsAs hl hr
  have hequal : (a == b) = decide (a.toInt = b.toInt) := by
    rw [Bool.eq_iff_iff, beq_iff_eq, decide_eq_true_iff, Int64.toInt_inj]
  constructor
  · rw [test, htest, hequal]
  · rw [test, htest, hequal, decide_not]

/-- The tests for order compare the doubles nearest to the integers. -/
theorem decidesOrder_nearest (hl : left.ReadsAs a) (hr : right.ReadsAs b) :
    DecidesOrder left right (nearestInt a.toInt) (nearestInt b.toInt) := by
  obtain ⟨order, hcompares, htest⟩ := testNumbers_of_readsAs hl hr
  constructor
  · rw [test, htest, ← decide_eq_decide.mpr hcompares.eq_lt]
    rfl
  · rw [test, htest, ← decide_eq_decide.mpr hcompares.ne_gt]
    cases order <;> rfl
  · rw [test, htest, ← decide_eq_decide.mpr hcompares.eq_gt]
    rfl
  · rw [test, htest, ← decide_eq_decide.mpr hcompares.ne_lt]
    cases order <;> rfl

/-- The order of integers is decided as well, unless different ones are rounded to one double. -/
theorem decidesOrder_iff (hl : left.ReadsAs a) (hr : right.ReadsAs b) :
    DecidesOrder left right a.toInt b.toInt ↔
      a.toInt = b.toInt ∨ nearestInt a.toInt ≠ nearestInt b.toInt := by
  have hnearest := decidesOrder_nearest hl hr
  constructor
  · intro horder
    have hless := Except.ok.inj (horder.less.symm.trans hnearest.less)
    have hgreater := Except.ok.inj (horder.greater.symm.trans hnearest.greater)
    rw [decide_eq_decide] at hless hgreater
    omega
  · intro h
    have hless := nearestInt_lt_iff h
    have hgreater := nearestInt_lt_iff (h.imp Eq.symm Ne.symm)
    have hlessEquals : nearestInt a.toInt ≤ nearestInt b.toInt ↔ a.toInt ≤ b.toInt := by omega
    have hgreaterEquals : nearestInt b.toInt ≤ nearestInt a.toInt ↔ b.toInt ≤ a.toInt := by omega
    constructor
    · rw [hnearest.less, decide_eq_decide.mpr hless]
    · rw [hnearest.lessEquals, decide_eq_decide.mpr hlessEquals]
    · rw [hnearest.greater, decide_eq_decide.mpr hgreater]
    · rw [hnearest.greaterEquals, decide_eq_decide.mpr hgreaterEquals]

/-- Integers of up to 53 binary digits are in order. -/
theorem decidesOrder_of_natAbs_le (hl : left.ReadsAs a) (hr : right.ReadsAs b)
    (ha : a.toInt.natAbs ≤ 2 ^ 53) (hb : b.toInt.natAbs ≤ 2 ^ 53) :
    DecidesOrder left right a.toInt b.toInt := by
  have horder := decidesOrder_nearest hl hr
  rwa [nearestInt_of_natAbs_le ha, nearestInt_of_natAbs_le hb] at horder

/-- Exactly one of less, equal and greater holds, unless different integers are rounded to one
    double. -/
theorem trichotomy_iff (hl : left.ReadsAs a) (hr : right.ReadsAs b) :
    Trichotomy left right ↔ a.toInt = b.toInt ∨ nearestInt a.toInt ≠ nearestInt b.toInt := by
  have hless : numberLessThan.test left right = .ok true ↔
      nearestInt a.toInt < nearestInt b.toInt := by
    rw [(decidesOrder_nearest hl hr).less, Except.ok.injEq, decide_eq_true_iff]
  have hequals : numberEquals.test left right = .ok true ↔ a.toInt = b.toInt := by
    rw [(decidesEquality hl hr).equals, Except.ok.injEq, decide_eq_true_iff]
  have hgreater : numberGreaterThan.test left right = .ok true ↔
      nearestInt b.toInt < nearestInt a.toInt := by
    rw [(decidesOrder_nearest hl hr).greater, Except.ok.injEq, decide_eq_true_iff]
  constructor
  · rintro ⟨op, ⟨rfl | rfl | rfl, htest⟩, -⟩
    · exact .inr (Int.ne_of_lt (hless.mp htest))
    · exact .inl (hequals.mp htest)
    · exact .inr (Int.ne_of_gt (hgreater.mp htest))
  · intro h
    rw [nearestInt_lt_iff h] at hless
    rw [nearestInt_lt_iff (h.imp Eq.symm Ne.symm)] at hgreater
    rcases Int.lt_trichotomy a.toInt b.toInt with hlt | heq | hgt
    · refine ⟨numberLessThan, ⟨.inl rfl, hless.mpr hlt⟩, ?_⟩
      rintro op ⟨rfl | rfl | rfl, htest⟩
      · rfl
      · exact absurd (hequals.mp htest) (by omega)
      · exact absurd (hgreater.mp htest) (by omega)
    · refine ⟨numberEquals, ⟨.inr (.inl rfl), hequals.mpr heq⟩, ?_⟩
      rintro op ⟨rfl | rfl | rfl, htest⟩
      · exact absurd (hless.mp htest) (by omega)
      · rfl
      · exact absurd (hgreater.mp htest) (by omega)
    · refine ⟨numberGreaterThan, ⟨.inr (.inr rfl), hgreater.mpr hgt⟩, ?_⟩
      rintro op ⟨rfl | rfl | rfl, htest⟩
      · exact absurd (hless.mp htest) (by omega)
      · exact absurd (hequals.mp htest) (by omega)
      · rfl

/-- **Integers under the number operators.** Equality is decided on the integers themselves, order
    on the doubles nearest to them; so the order of the integers is decided, and exactly one of
    less, equal and greater holds, if and only if they are equal or have different doubles. The
    order of integers of up to 53 binary digits is decided in any case. -/
theorem ordersIntegers_iff (hl : left.ReadsAs a) (hr : right.ReadsAs b) :
    DecidesEquality left right a.toInt b.toInt ∧
      DecidesOrder left right (nearestInt a.toInt) (nearestInt b.toInt) ∧
      (DecidesOrder left right a.toInt b.toInt ↔
        a.toInt = b.toInt ∨ nearestInt a.toInt ≠ nearestInt b.toInt) ∧
      (Trichotomy left right ↔
        a.toInt = b.toInt ∨ nearestInt a.toInt ≠ nearestInt b.toInt) ∧
      (a.toInt.natAbs ≤ 2 ^ 53 → b.toInt.natAbs ≤ 2 ^ 53 →
        DecidesOrder left right a.toInt b.toInt) :=
  ⟨decidesEquality hl hr, decidesOrder_nearest hl hr, decidesOrder_iff hl hr, trichotomy_iff hl hr,
    decidesOrder_of_natAbs_le hl hr⟩

/-- A text and an integer of few digits are in order. -/
theorem ordersIntegers_iff_small :
    (Value.text "-7").ReadsAs (-7) ∧ (Value.number (.int 12)).ReadsAs 12 ∧
      DecidesOrder (.text "-7") (.number (.int 12)) (-7) 12 ∧
      Trichotomy (.text "-7") (.number (.int 12)) := by
  have hl : (Value.text "-7").ReadsAs (-7) := .text rfl
  have hr : (Value.number (.int 12)).ReadsAs 12 := .number
  obtain ⟨-, -, -, htrichotomy, horder⟩ := ordersIntegers_iff hl hr
  exact ⟨hl, hr, horder (by decide) (by decide), htrichotomy.mpr (.inr (by decide))⟩

/-- Two consecutive integers with one double: none is less than the other, and they are not
    equal. -/
theorem no_order_of_consecutive :
    (9007199254740992 : Int64).toInt < (9007199254740993 : Int64).toInt ∧
      numberLessThan.test (.number (.int 9007199254740992)) (.number (.int 9007199254740993)) =
        .ok false ∧
      numberEquals.test (.number (.int 9007199254740992)) (.number (.int 9007199254740993)) =
        .ok false ∧
      numberGreaterThan.test (.number (.int 9007199254740992)) (.number (.int 9007199254740993)) =
        .ok false := by
  have hl : (Value.number (.int 9007199254740992)).ReadsAs 9007199254740992 := .number
  have hr : (Value.number (.int 9007199254740993)).ReadsAs 9007199254740993 := .number
  have hdouble : nearestInt (9007199254740992 : Int64).toInt =
      nearestInt (9007199254740993 : Int64).toInt := by decide
  have horder := decidesOrder_nearest hl hr
  refine ⟨by decide, ?_, ?_, ?_⟩
  · rw [horder.less, hdouble, decide_eq_false (Int.lt_irrefl _)]
  · rw [(decidesEquality hl hr).equals, decide_eq_false (by decide)]
  · rw [horder.greater, hdouble, decide_eq_false (Int.lt_irrefl _)]

end Operator

/-! ## 3. Arithmetic -/

namespace Filter.Number

open Stencil (Number)

variable {v : Value} {s : String} {a b : Int64}

/-- An operation on integers done with doubles: on those nearest to the operands, with the double
    nearest to the result. -/
def rounded (op : Int → Int → Int) (i j : Int) : Int :=
  nearestInt (op (nearestInt i) (nearestInt j))

/-- An outcome is right for an operation on integers: it is the exact result, or, where that does
    not fit 64 bits, the double that the operation on doubles gives. -/
inductive Computes (op : Int → Int → Int) (i j : Int) : Outcome Value → Prop where
  | int {r : Int64} (h : r.toInt = op i j) : Computes op i j (.ok (.number (.int r)))
  | float {x : Float} (h : Number.int64? (op i j) = none) (value : HasValue x (rounded op i j)) :
      Computes op i j (.ok (.number (.float x)))

theorem int64?_eq_none_iff {i : Int} : Number.int64? i = none ↔ i < -2 ^ 63 ∨ 2 ^ 63 ≤ i := by
  unfold Number.int64?
  rw [Int64.toInt_minValue, Int64.toInt_maxValue, ite_eq_right_iff]
  constructor
  · intro h
    by_contra hfits
    exact Option.some_ne_none _ (h (by omega))
  · intro h hfits
    omega

/-- Two integers under a number filter. -/
theorem arithmetic_of_readsAs (hv : v.ReadsAs a) (hs : Number.parse? s = some (.int b))
    (filter : String) (exactOp : Int → Int → Int) (floatOp : Float → Float → Float)
    (rest : List String) (scope : Scope) :
    arithmetic filter exactOp floatOp v (s :: rest) scope =
      combine filter exactOp floatOp (.int a) (.int b) := by
  have hargument : numberArgument filter (s :: rest) 0 = .ok (.int b) := by
    rw [numberArgument, argument, List.getElem?_cons_zero]
    simp only [hs]
  rw [arithmetic, hv.number?]
  simp only [hargument]

variable {exactOp : Int → Int → Int} {floatOp : Float → Float → Float}

/-- A result that does not fit is computed with doubles, and kept as an integer if the double is one
    of less than 64 digits. -/
theorem combine_of_none {i : Int} (hfits : Number.int64? (exactOp a.toInt b.toInt) = none)
    (hvalue : HasValue (floatOp (Number.int a).toFloat (Number.int b).toFloat) i)
    (filter : String) :
    combine filter exactOp floatOp (.int a) (.int b) =
      .ok (.number (if i.natAbs < 2 ^ 63 then .int (Int64.ofInt i)
        else .float (floatOp (Number.int a).toFloat (Number.int b).toFloat))) := by
  rw [combine, wholeResult?, hfits]
  simp only [finite, Number.ofFloat?_of_hasValue hvalue]

/-- **What is computed is right** where the exact result fits, and otherwise exactly where its
    double is beyond 64 bits as well. -/
theorem computes_combine_iff {filter : String}
    (hvalue : Number.int64? (exactOp a.toInt b.toInt) = none →
      HasValue (floatOp (Number.int a).toFloat (Number.int b).toFloat)
        (rounded exactOp a.toInt b.toInt)) :
    Computes exactOp a.toInt b.toInt (combine filter exactOp floatOp (.int a) (.int b)) ↔
      (Number.int64? (exactOp a.toInt b.toInt) = none →
        2 ^ 63 ≤ (rounded exactOp a.toInt b.toInt).natAbs) := by
  cases hfits : Number.int64? (exactOp a.toInt b.toInt) with
  | some r =>
    have hresult : combine filter exactOp floatOp (.int a) (.int b) = .ok (.number (.int r)) := by
      rw [combine, wholeResult?, hfits]
    rw [hresult]
    exact ⟨fun _ h => absurd h (Option.some_ne_none r),
      fun _ => .int (Number.toInt_of_int64? hfits)⟩
  | none =>
    rw [combine_of_none hfits (hvalue hfits)]
    by_cases hless : (rounded exactOp a.toInt b.toInt).natAbs < 2 ^ 63
    · rw [if_pos hless]
      constructor
      · rintro (⟨hexact⟩ | _)
        rw [← hexact, Number.int64?_toInt] at hfits
        cases hfits
      · intro hbeyond
        exact absurd (hbeyond rfl) (Nat.not_le.mpr hless)
    · rw [if_neg hless]
      exact ⟨fun _ _ => Nat.le_of_not_lt hless, fun _ => .float hfits (hvalue hfits)⟩

/-- What is computed from two 64-bit integers is far from infinite. -/
theorem log2_nearestInt_lt {i : Int} (h : i.natAbs ≤ 2 ^ 126) :
    (nearestInt i).natAbs.log2 < 1024 :=
  Nat.lt_of_le_of_lt (log2_le_of_le (natAbs_nearestInt_le h)) (by decide)

/-- **Sums are right.** -/
theorem computes_plus (hv : v.ReadsAs a) (hs : Number.parse? s = some (.int b))
    (rest : List String) (scope : Scope) :
    Computes (· + ·) a.toInt b.toInt (plus v (s :: rest) scope) := by
  have ha := natAbs_toInt_le a
  have hb := natAbs_toInt_le b
  have ha' := natAbs_nearestInt_le ha
  have hb' := natAbs_nearestInt_le hb
  have hvalue := (Number.hasValue_toFloat a).add (Number.hasValue_toFloat b)
    (log2_nearestInt_lt (by omega))
  rw [plus, arithmetic_of_readsAs hv hs]
  refine (computes_combine_iff fun _ => hvalue).mpr fun hfits => ?_
  have hbeyond := int64?_eq_none_iff.mp hfits
  exact two_pow_le_nearestInt_add ha hb (by omega)

/-- **Differences are right.** -/
theorem computes_minus (hv : v.ReadsAs a) (hs : Number.parse? s = some (.int b))
    (rest : List String) (scope : Scope) :
    Computes (· - ·) a.toInt b.toInt (minus v (s :: rest) scope) := by
  have ha := natAbs_toInt_le a
  have hb := natAbs_toInt_le b
  have ha' := natAbs_nearestInt_le ha
  have hb' := natAbs_nearestInt_le hb
  have hvalue := (Number.hasValue_toFloat a).sub (Number.hasValue_toFloat b)
    (log2_nearestInt_lt (by omega))
  rw [minus, arithmetic_of_readsAs hv hs]
  refine (computes_combine_iff fun _ => hvalue).mpr fun hfits => ?_
  have hbeyond := int64?_eq_none_iff.mp hfits
  have hnegated : 2 ^ 63 ≤ (nearestInt (nearestInt a.toInt + nearestInt (-b.toInt))).natAbs :=
    two_pow_le_nearestInt_add ha (by omega) (by omega)
  rwa [nearestInt_neg, ← Int.sub_eq_add_neg] at hnegated

/-- The product of the doubles of two integers whose product does not fit. -/
theorem hasValue_product (hfits : Number.int64? (a.toInt * b.toInt) = none) :
    HasValue ((Number.int a).toFloat * (Number.int b).toFloat)
      (rounded (· * ·) a.toInt b.toInt) := by
  have hbeyond := int64?_eq_none_iff.mp hfits
  -- neither factor is zero, since zero fits
  have ha : a.toInt ≠ 0 := by
    intro hzero
    rw [hzero, Int.zero_mul] at hbeyond
    omega
  have hb : b.toInt ≠ 0 := by
    intro hzero
    rw [hzero, Int.mul_zero] at hbeyond
    omega
  have hsize : (nearestInt a.toInt * nearestInt b.toInt).natAbs ≤ 2 ^ 126 := by
    rw [Int.natAbs_mul]
    calc
      _ ≤ 2 ^ 63 * 2 ^ 63 := Nat.mul_le_mul (natAbs_nearestInt_le (natAbs_toInt_le a))
        (natAbs_nearestInt_le (natAbs_toInt_le b))
      _ = 2 ^ 126 := by decide
  exact (Number.hasValue_toFloat a).mul (Number.hasValue_toFloat b) (nearestInt_ne_zero ha)
    (nearestInt_ne_zero hb) (log2_nearestInt_lt hsize)

/-- **A product is right** if it fits, or if it is beyond 64 bits as a double too. -/
theorem computes_multiply_iff (hv : v.ReadsAs a) (hs : Number.parse? s = some (.int b))
    (rest : List String) (scope : Scope) :
    Computes (· * ·) a.toInt b.toInt (multiply v (s :: rest) scope) ↔
      (Number.int64? (a.toInt * b.toInt) = none →
        2 ^ 63 ≤ (rounded (· * ·) a.toInt b.toInt).natAbs) := by
  rw [multiply, arithmetic_of_readsAs hv hs]
  exact computes_combine_iff hasValue_product

/-- Products from a little above `2 ^ 63` on are right. -/
theorem computes_multiply_of_le (hv : v.ReadsAs a) (hs : Number.parse? s = some (.int b))
    (h : 2 ^ 63 + 2 ^ 11 ≤ (a.toInt * b.toInt).natAbs) (rest : List String) (scope : Scope) :
    Computes (· * ·) a.toInt b.toInt (multiply v (s :: rest) scope) := by
  refine (computes_multiply_iff hv hs rest scope).mpr fun _ => ?_
  rw [rounded, natAbs_nearestInt, Int.natAbs_mul, natAbs_nearestInt, natAbs_nearestInt]
  exact two_pow_le_nearest_mul (by rwa [← Int.natAbs_mul])

/-- Products of integers that are doubles are right. -/
theorem computes_multiply_of_doubles (hv : v.ReadsAs a) (hs : Number.parse? s = some (.int b))
    (ha : nearestInt a.toInt = a.toInt) (hb : nearestInt b.toInt = b.toInt) (rest : List String)
    (scope : Scope) : Computes (· * ·) a.toInt b.toInt (multiply v (s :: rest) scope) := by
  refine (computes_multiply_iff hv hs rest scope).mpr fun hfits => ?_
  have hbeyond := int64?_eq_none_iff.mp hfits
  rw [rounded, ha, hb, natAbs_nearestInt]
  exact two_pow_le_nearest (by omega)

/-- **Integers under arithmetic.** Sums and differences are right. Products are right, but for those
    that do not fit 64 bits and are rounded to a double that does. There are no such products from
    `2 ^ 63 + 2 ^ 11` on, nor of two factors that are doubles. -/
theorem computes_arithmetic (hv : v.ReadsAs a) (hs : Number.parse? s = some (.int b))
    (rest : List String) (scope : Scope) :
    Computes (· + ·) a.toInt b.toInt (plus v (s :: rest) scope) ∧
      Computes (· - ·) a.toInt b.toInt (minus v (s :: rest) scope) ∧
      (Computes (· * ·) a.toInt b.toInt (multiply v (s :: rest) scope) ↔
        (Number.int64? (a.toInt * b.toInt) = none →
          2 ^ 63 ≤ (rounded (· * ·) a.toInt b.toInt).natAbs)) ∧
      (2 ^ 63 + 2 ^ 11 ≤ (a.toInt * b.toInt).natAbs →
        Computes (· * ·) a.toInt b.toInt (multiply v (s :: rest) scope)) ∧
      (nearestInt a.toInt = a.toInt → nearestInt b.toInt = b.toInt →
        Computes (· * ·) a.toInt b.toInt (multiply v (s :: rest) scope)) :=
  ⟨computes_plus hv hs rest scope, computes_minus hv hs rest scope,
    computes_multiply_iff hv hs rest scope, fun h => computes_multiply_of_le hv hs h rest scope,
    fun ha hb => computes_multiply_of_doubles hv hs ha hb rest scope⟩

/-- The greatest integer and the integer above it. -/
theorem computes_arithmetic_greatest :
    (Value.number (.int 9223372036854775807)).ReadsAs 9223372036854775807 ∧
      Number.parse? "1" = some (.int 1) ∧
      Computes (· + ·) 9223372036854775807 1
        (plus (.number (.int 9223372036854775807)) ["1"] ⟨.empty, .empty⟩) ∧
      Computes (· - ·) 9223372036854775807 1
        (minus (.number (.int 9223372036854775807)) ["1"] ⟨.empty, .empty⟩) ∧
      Computes (· * ·) 9223372036854775807 1
        (multiply (.number (.int 9223372036854775807)) ["1"] ⟨.empty, .empty⟩) := by
  have hone : Number.parse? "1" = some (.int 1) := rfl
  obtain ⟨hplus, hminus, hmultiply, -⟩ :=
    computes_arithmetic (a := 9223372036854775807) .number hone [] ⟨.empty, .empty⟩
  exact ⟨.number, hone, hplus, hminus, hmultiply.mpr fun hnone => absurd hnone (by decide)⟩

/-- A product above the greatest integer, `2 ^ 63 + 24`, that is rounded to an integer below it. -/
theorem multiply_rounded_into_range :
    Number.parse? "103" = some (.int 103) ∧
      Number.int64? (89547301328687144 * 103) = none ∧
      multiply (.number (.int 89547301328687144)) ["103"] ⟨.empty, .empty⟩ =
        .ok (.number (.int 9223372036854774784)) := by
  have hright : Number.parse? "103" = some (.int 103) := rfl
  have hfits : Number.int64? ((89547301328687144 : Int64).toInt * (103 : Int64).toInt) = none := by
    decide
  have hrounded : rounded (· * ·) (89547301328687144 : Int64).toInt (103 : Int64).toInt =
      9223372036854774784 := by decide
  refine ⟨hright, hfits, ?_⟩
  rw [multiply, arithmetic_of_readsAs .number hright,
    combine_of_none hfits (hasValue_product hfits), hrounded]
  rfl

end Filter.Number

end Stencil
