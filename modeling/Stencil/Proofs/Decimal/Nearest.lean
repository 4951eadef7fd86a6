import Mathlib.Algebra.Order.Ring.Nat
import Mathlib.Tactic.Linarith

/-!
# The double nearest to an integer

A double has 53 binary digits, so an integer of more digits is in general none. This file fixes, in
exact arithmetic,

* the integer nearest to a quotient, and of two equally near the even one (`quotientEven`);
* the double nearest to a natural number (`nearest`) and to an integer (`nearestInt`): a multiple of
  the number's `unit`, which is the gap between the doubles of its size;
* that rounding keeps order, keeps integers of up to 53 digits, and changes no integer by more than
  half its unit;
* that a sum of rounded integers beyond 64 bits is still beyond 64 bits when it is rounded
  (`two_pow_le_nearest_add`), and that of a product this holds from a little further on
  (`two_pow_le_nearest_mul`).
-/

namespace Stencil.Binary64

/-! ## 1. Quotients -/

/-- The integer nearest to a quotient; of two equally near, the even one. -/
def quotientEven (n d : Nat) : Nat :=
  if 2 * (n % d) < d then n / d
  else if d < 2 * (n % d) then n / d + 1
  else n / d + n / d % 2

variable {m n d k : Nat}

/-- A quotient is off by half a unit at most. -/
theorem quotientEven_error (n : Nat) (hd : 0 < d) :
    2 * n ≤ 2 * (quotientEven n d * d) + d ∧ 2 * (quotientEven n d * d) ≤ 2 * n + d := by
  have hmod := Nat.mod_lt n hd
  have hdiv : n / d * d + n % d = n := Nat.div_add_mod' n d
  unfold quotientEven
  split_ifs with hbelow habove
  · omega
  · rw [Nat.add_mul, Nat.one_mul]
    omega
  · rcases Nat.mod_two_eq_zero_or_one (n / d) with heven | hodd
    · rw [heven, Nat.add_zero]
      omega
    · rw [hodd, Nat.add_mul, Nat.one_mul]
      omega

/-- **Rounding keeps order.** -/
theorem quotientEven_mono (h : m ≤ n) (hd : 0 < d) : quotientEven m d ≤ quotientEven n d := by
  rcases h.eq_or_lt with rfl | hlt
  · exact Nat.le_refl _
  · by_contra hgreater
    have hstep : quotientEven n d + 1 ≤ quotientEven m d := Nat.lt_of_not_le hgreater
    have hproduct : quotientEven n d * d + d ≤ quotientEven m d * d := by
      calc
        quotientEven n d * d + d = (quotientEven n d + 1) * d := by rw [Nat.add_mul, Nat.one_mul]
        _ ≤ quotientEven m d * d := Nat.mul_le_mul_right d hstep
    have hm := (quotientEven_error m hd).2
    have hn := (quotientEven_error n hd).1
    omega

/-- A whole quotient is not rounded. -/
@[simp] theorem quotientEven_mul_right (k : Nat) (hd : 0 < d) : quotientEven (k * d) d = k := by
  rw [quotientEven, Nat.mul_mod_left, if_pos (by omega), Nat.mul_div_cancel k hd]

theorem quotientEven_of_dvd (h : d ∣ n) (hd : 0 < d) : quotientEven n d * d = n := by
  obtain ⟨k, rfl⟩ := h
  rw [Nat.mul_comm d k, quotientEven_mul_right k hd]

/-- Only the quotient counts. -/
theorem quotientEven_scale (n d : Nat) {c : Nat} (hc : 0 < c) :
    quotientEven (n * c) (d * c) = quotientEven n d := by
  have hless : ∀ r, 2 * (r * c) < d * c ↔ 2 * r < d := by
    intro r
    rw [← Nat.mul_assoc]
    exact Nat.mul_lt_mul_right hc
  have hgreater : ∀ r, d * c < 2 * (r * c) ↔ d < 2 * r := by
    intro r
    rw [← Nat.mul_assoc]
    exact Nat.mul_lt_mul_right hc
  unfold quotientEven
  simp only [Nat.mul_mod_mul_right, Nat.mul_div_mul_right n d hc, hless, hgreater]

/-- Equal quotients are rounded alike. -/
theorem quotientEven_congr {m' d' : Nat} (h : m * d' = m' * d) (hd : 0 < d) (hd' : 0 < d') :
    quotientEven m d = quotientEven m' d' := by
  rw [← quotientEven_scale m d hd', h, Nat.mul_comm d d', quotientEven_scale m' d' hd]

/-! ## 2. Natural numbers -/

/-- The gap between the doubles of the size of a natural number. -/
def unit (n : Nat) : Nat :=
  2 ^ (n.log2 - 52)

/-- The double nearest to a natural number. -/
def nearest (n : Nat) : Nat :=
  quotientEven n (unit n) * unit n

theorem log2_mono (hm : 0 < m) (h : m ≤ n) : m.log2 ≤ n.log2 :=
  (Nat.le_log2 (Nat.pos_iff_ne_zero.mp (Nat.lt_of_lt_of_le hm h))).mpr
    ((Nat.log2_self_le (Nat.pos_iff_ne_zero.mp hm)).trans h)

theorem unit_pos (n : Nat) : 0 < unit n :=
  Nat.two_pow_pos _

theorem unit_dvd_nearest (n : Nat) : unit n ∣ nearest n :=
  Nat.dvd_mul_left _ _

/-- **A natural number is off by half its unit at most.** -/
theorem nearest_error (n : Nat) :
    2 * n ≤ 2 * nearest n + unit n ∧ 2 * nearest n ≤ 2 * n + unit n :=
  quotientEven_error n (unit_pos n)

/-- A multiple of its unit is a double. -/
theorem nearest_of_dvd (h : unit n ∣ n) : nearest n = n :=
  quotientEven_of_dvd h (unit_pos n)

/-- **Natural numbers of up to 53 binary digits are doubles.** -/
theorem nearest_of_le (h : n ≤ 2 ^ 53) : nearest n = n := by
  refine nearest_of_dvd ?_
  rcases h.eq_or_lt with rfl | hlt
  · decide
  · have hdigits : n.log2 - 52 = 0 := by
      rcases Nat.eq_zero_or_pos n with rfl | hpos
      · decide
      · have hlog : n.log2 < 53 := (Nat.log2_lt (Nat.pos_iff_ne_zero.mp hpos)).mpr hlt
        omega
    rw [unit, hdigits]
    exact Nat.one_dvd n

theorem nearest_two_pow (l : Nat) : nearest (2 ^ l) = 2 ^ l := by
  refine nearest_of_dvd ?_
  rw [unit, Nat.log2_two_pow]
  exact Nat.pow_dvd_pow 2 (Nat.sub_le l 52)

/-- The leading digit of a rounded number is that of the number, or the next one. -/
theorem nearest_bounds (hn : 0 < n) : 2 ^ n.log2 ≤ nearest n ∧ nearest n ≤ 2 ^ (n.log2 + 1) := by
  have hlow : 2 ^ n.log2 ≤ n := Nat.log2_self_le (Nat.pos_iff_ne_zero.mp hn)
  have hhigh : n < 2 ^ (n.log2 + 1) := Nat.lt_log2_self
  have hwhole : ∀ l, n.log2 - 52 ≤ l → quotientEven (2 ^ l) (unit n) * unit n = 2 ^ l :=
    fun l hl => quotientEven_of_dvd (Nat.pow_dvd_pow 2 hl) (unit_pos n)
  constructor
  · rw [← hwhole n.log2 (Nat.sub_le _ _)]
    exact Nat.mul_le_mul_right _ (quotientEven_mono hlow (unit_pos n))
  · rw [← hwhole (n.log2 + 1) (by omega)]
    exact Nat.mul_le_mul_right _ (quotientEven_mono hhigh.le (unit_pos n))

theorem nearest_pos (hn : 0 < n) : 0 < nearest n :=
  Nat.lt_of_lt_of_le (Nat.two_pow_pos _) (nearest_bounds hn).1

@[simp] theorem nearest_zero : nearest 0 = 0 := by
  decide

/-- **Rounding keeps the order of natural numbers.** -/
theorem nearest_mono (h : m ≤ n) : nearest m ≤ nearest n := by
  rcases Nat.eq_zero_or_pos m with rfl | hm
  · rw [nearest_zero]
    exact Nat.zero_le _
  · have hn : 0 < n := Nat.lt_of_lt_of_le hm h
    have hlog : m.log2 ≤ n.log2 := log2_mono hm h
    rcases hlog.eq_or_lt with heq | hlt
    · have hunit : unit m = unit n := by rw [unit, unit, heq]
      rw [nearest, nearest, hunit]
      exact Nat.mul_le_mul_right _ (quotientEven_mono h (unit_pos n))
    · calc
        nearest m ≤ 2 ^ (m.log2 + 1) := (nearest_bounds hm).2
        _ ≤ 2 ^ n.log2 := Nat.pow_le_pow_right Nat.two_pos hlt
        _ ≤ nearest n := (nearest_bounds hn).1

/-! ## 3. Beyond 64 bits -/

theorem unit_dvd_of_lt {l : Nat} (hn : 0 < n) (h : n < 2 ^ l) (hl : 53 ≤ l) :
    unit n ∣ 2 ^ (l - 53) := by
  have hlog : n.log2 < l := (Nat.log2_lt (Nat.pos_iff_ne_zero.mp hn)).mpr h
  exact Nat.pow_dvd_pow 2 (by omega)

theorem unit_dvd_unit (hm : 0 < m) (h : m ≤ n) : unit m ∣ unit n :=
  Nat.pow_dvd_pow 2 (Nat.sub_le_sub_right (log2_mono hm h) 52)

/-- Multiples are a whole step apart. -/
theorem add_le_of_dvd_of_lt (hm : d ∣ m) (hn : d ∣ n) (h : m < n) : m + d ≤ n := by
  have hstep : d ≤ n - m := Nat.le_of_dvd (Nat.sub_pos_of_lt h) (Nat.dvd_sub hn hm)
  omega

/-- What is at most half the last gap below `2 ^ 63` is rounded up. -/
theorem two_pow_le_nearest (h : 2 ^ 63 - 2 ^ 9 ≤ n) : 2 ^ 63 ≤ nearest n :=
  calc
    2 ^ 63 = nearest (2 ^ 63 - 2 ^ 9) := by decide
    _ ≤ nearest n := nearest_mono h

/-- Rounding the parts of a sum takes at most half a gap from it: the smaller part has the smaller
    unit, and the sum is a multiple of that. -/
theorem le_nearest_add (hmn : m ≤ n) (hn : n < 2 ^ 63) (h : 2 ^ 63 ≤ m + n) :
    2 ^ 63 - 2 ^ 9 ≤ nearest m + nearest n := by
  have hm : 0 < m := by omega
  by_cases hsmall : m < 2 ^ 62
  · have hunit : unit m ∣ 2 ^ 9 := unit_dvd_of_lt hm hsmall (by decide)
    have hunit' : unit n ≤ 2 ^ 10 :=
      Nat.le_of_dvd (by decide) (unit_dvd_of_lt (Nat.lt_of_lt_of_le hm hmn) hn (by decide))
    have hsum : unit m ∣ nearest m + nearest n :=
      Nat.dvd_add (unit_dvd_nearest m) ((unit_dvd_unit hm hmn).trans (unit_dvd_nearest n))
    have hgoal : unit m ∣ 2 ^ 63 - 2 ^ 9 := hunit.trans (by decide)
    have hpos := unit_pos m
    have herror := (nearest_error m).1
    have herror' := (nearest_error n).1
    by_contra hless
    have hstep := add_le_of_dvd_of_lt hsum hgoal (Nat.lt_of_not_le hless)
    omega
  · have hhalf : 2 ^ 62 ≤ nearest m := by
      rw [← nearest_two_pow]
      exact nearest_mono (Nat.le_of_not_lt hsmall)
    have hhalf' : nearest m ≤ nearest n := nearest_mono hmn
    omega

/-- **A sum beyond 64 bits stays beyond them** when its parts are rounded, and then the sum. -/
theorem two_pow_le_nearest_add (hm : m ≤ 2 ^ 63) (hn : n ≤ 2 ^ 63) (h : 2 ^ 63 ≤ m + n) :
    2 ^ 63 ≤ nearest (nearest m + nearest n) := by
  have hlimit : nearest (2 ^ 63) = 2 ^ 63 := nearest_two_pow 63
  refine two_pow_le_nearest ?_
  rcases hm.eq_or_lt with rfl | hm
  · omega
  · rcases hn.eq_or_lt with rfl | hn
    · omega
    · rcases Nat.le_total m n with hmn | hnm
      · exact le_nearest_add hmn hn h
      · rw [Nat.add_comm]
        exact le_nearest_add hnm hm (by omega)

/-- Rounding takes at most one part in `2 ^ 53` from a number. -/
theorem mul_le_nearest_mul (n : Nat) : n * (2 ^ 53 - 1) ≤ nearest n * 2 ^ 53 := by
  by_cases hsmall : n < 2 ^ 53
  · rw [nearest_of_le hsmall.le]
    exact Nat.mul_le_mul_left n (Nat.sub_le _ _)
  · have hpos : n ≠ 0 := by omega
    have hlog : 53 ≤ n.log2 := (Nat.le_log2 hpos).mpr (Nat.le_of_not_lt hsmall)
    have hunit : unit n * 2 ^ 52 ≤ n := by
      calc
        unit n * 2 ^ 52 = 2 ^ n.log2 := by
          rw [unit, ← Nat.pow_add, Nat.sub_add_cancel (by omega)]
        _ ≤ n := Nat.log2_self_le hpos
    have herror := (nearest_error n).1
    rw [Nat.mul_sub_one]
    omega

/-- **A product a little beyond 64 bits stays beyond them** when its factors are rounded, and then
    the product. -/
theorem two_pow_le_nearest_mul (h : 2 ^ 63 + 2 ^ 11 ≤ m * n) :
    2 ^ 63 ≤ nearest (nearest m * nearest n) := by
  refine two_pow_le_nearest ?_
  have hrounded : m * n * ((2 ^ 53 - 1) * (2 ^ 53 - 1)) ≤
      nearest m * nearest n * (2 ^ 53 * 2 ^ 53) := by
    rw [Nat.mul_mul_mul_comm, Nat.mul_mul_mul_comm (nearest m)]
    exact Nat.mul_le_mul (mul_le_nearest_mul m) (mul_le_nearest_mul n)
  omega

/-! ## 4. Integers -/

/-- The double nearest to an integer. -/
def nearestInt (i : Int) : Int :=
  i.sign * nearest i.natAbs

@[simp] theorem nearestInt_zero : nearestInt 0 = 0 := by
  decide

@[simp] theorem nearestInt_natCast (n : Nat) : nearestInt n = nearest n := by
  rcases Nat.eq_zero_or_pos n with rfl | hpos
  · decide
  · rw [nearestInt, Int.natAbs_natCast, Int.sign_eq_one_of_pos (by omega), Int.one_mul]

@[simp] theorem nearestInt_neg (i : Int) : nearestInt (-i) = -nearestInt i := by
  rw [nearestInt, nearestInt, Int.natAbs_neg, Int.sign_neg, Int.neg_mul]

theorem nearestInt_of_natAbs_le {i : Int} (h : i.natAbs ≤ 2 ^ 53) : nearestInt i = i := by
  rw [nearestInt, nearest_of_le h, Int.sign_mul_natAbs]

theorem natAbs_nearestInt (i : Int) : (nearestInt i).natAbs = nearest i.natAbs := by
  obtain ⟨n, rfl | rfl⟩ := i.eq_nat_or_neg
  · simp
  · simp

/-- Rounding does not carry an integer over a power of two. -/
theorem natAbs_nearestInt_le {i : Int} {l : Nat} (h : i.natAbs ≤ 2 ^ l) :
    (nearestInt i).natAbs ≤ 2 ^ l := by
  rw [natAbs_nearestInt, ← nearest_two_pow l]
  exact nearest_mono h

theorem nearestInt_ne_zero {i : Int} (h : i ≠ 0) : nearestInt i ≠ 0 := by
  rw [← Int.natAbs_ne_zero, natAbs_nearestInt]
  exact Nat.pos_iff_ne_zero.mp (nearest_pos (Int.natAbs_pos.mpr h))

/-- **Rounding keeps the order of integers.** -/
theorem nearestInt_mono {i j : Int} (h : i ≤ j) : nearestInt i ≤ nearestInt j := by
  obtain ⟨m, rfl | rfl⟩ := i.eq_nat_or_neg
  · obtain ⟨n, rfl⟩ := Int.eq_ofNat_of_zero_le (a := j) (by omega)
    rw [nearestInt_natCast, nearestInt_natCast]
    exact_mod_cast nearest_mono (by omega)
  · obtain ⟨n, rfl | rfl⟩ := j.eq_nat_or_neg
    · rw [nearestInt_neg, nearestInt_natCast, nearestInt_natCast]
      omega
    · have hmono : nearest n ≤ nearest m := nearest_mono (by omega)
      rw [nearestInt_neg, nearestInt_neg, nearestInt_natCast, nearestInt_natCast]
      omega

/-- Integers that are not rounded to one double keep their order. -/
theorem nearestInt_lt_iff {i j : Int} (h : i = j ∨ nearestInt i ≠ nearestInt j) :
    nearestInt i < nearestInt j ↔ i < j := by
  constructor
  · intro hlt
    by_contra hle
    exact absurd (nearestInt_mono (Int.not_lt.mp hle)) (Int.not_le.mpr hlt)
  · intro hlt
    have hne : nearestInt i ≠ nearestInt j := h.resolve_left (Int.ne_of_lt hlt)
    exact lt_of_le_of_ne (nearestInt_mono hlt.le) hne

/-- **A sum of integers beyond 64 bits stays beyond them.** Such a sum has parts of one sign. -/
theorem two_pow_le_nearestInt_add {i j : Int} (hi : i.natAbs ≤ 2 ^ 63) (hj : j.natAbs ≤ 2 ^ 63)
    (h : 2 ^ 63 ≤ (i + j).natAbs) :
    2 ^ 63 ≤ (nearestInt (nearestInt i + nearestInt j)).natAbs := by
  have hsum : (nearestInt i + nearestInt j).natAbs = nearest i.natAbs + nearest j.natAbs := by
    obtain ⟨m, rfl | rfl⟩ := i.eq_nat_or_neg <;> obtain ⟨n, rfl | rfl⟩ := j.eq_nat_or_neg
    · simp only [nearestInt_natCast, Int.natAbs_natCast]
      omega
    · have hzero : m = 0 ∨ n = 0 := by omega
      rcases hzero with rfl | rfl
      · simp
      · simp
    · have hzero : m = 0 ∨ n = 0 := by omega
      rcases hzero with rfl | rfl
      · simp
      · simp
    · simp only [nearestInt_neg, nearestInt_natCast, Int.natAbs_neg, Int.natAbs_natCast]
      omega
  rw [natAbs_nearestInt, hsum]
  exact two_pow_le_nearest_add hi hj (by omega)

end Stencil.Binary64
