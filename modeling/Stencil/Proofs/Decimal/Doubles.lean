import Mathlib
import Stencil.Number
import Stencil.Proofs.Decimal.Nearest

/-!
# Doubles that are integers

The doubles of the language are bit patterns, and each operation on them unpacks its operands,
computes with mantissas and exponents, and packs what it has rounded. This file fixes

* the unpacked form of an integer that is a double (`Exact`), and the doubles that have an integer
  as their value (`HasValue`);
* that cutting digits off a mantissa keeps what is needed to round it (`Summarizes`), so that
  rounding gives the nearest double (`exact_roundWithAccuracy`, `exact_round`, `exact_normalize`);
* that what is packed is unpacked again (`unpack_pack`);
* the values of converted integers (`hasValue_ofInt`), of sums, differences and products
  (`HasValue.add`, `HasValue.sub`, `HasValue.mul`), the order of doubles (`HasValue.lt_iff`,
  `HasValue.beq_iff`), and which of them are kept as 64-bit integers
  (`Number.ofFloat?_of_hasValue`);
* what the parts of a double are (`hasParts_of_ofFloat?`), so which doubles are integers
  (`toInt?_eq_some_iff`) and which are equal to that of an integer (`HasValue.beq_iff_toInt?`);
* the doubles that are not taken apart at all (`ofFloat?_eq_none_iff`).
-/

namespace Stencil.Binary64

open Float.Model Float.Model.UnpackedFloat

/-! ## 1. Digits that are cut off -/

/-- A mantissa summarizes a quotient: its round bit tells whether at least a half was cut off, and
    its sticky bit whether something else than nothing or a half. -/
structure Summarizes (n d : Nat) (em : ExtendedMantissa) : Prop where
  mantissa : em.mantissa = n / d
  roundBit : em.roundBit = true ↔ d ≤ 2 * (n % d)
  stickyBit : em.stickyBit = true ↔ n % d ≠ 0 ∧ 2 * (n % d) ≠ d

variable {n d : Nat} {em : ExtendedMantissa}

theorem summarizes_exact (n : Nat) : Summarizes n 1 ⟨n, false, false⟩ where
  mantissa := (Nat.div_one n).symm
  roundBit := by simp [Nat.mod_one]
  stickyBit := by simp [Nat.mod_one]

/-- **Cutting off a digit** halves the quotient. -/
theorem Summarizes.shiftRightOne (h : Summarizes n d em) (hd : 0 < d) :
    Summarizes n (d * 2) em.shiftRightOne := by
  have hless := Nat.mod_lt n hd
  have hmod : n % (d * 2) = n % d + d * (em.mantissa % 2) := by
    rw [h.mantissa]
    exact Nat.mod_mul
  refine ⟨?_, ?_, ?_⟩
  · show em.mantissa / 2 = n / (d * 2)
    rw [h.mantissa, Nat.div_div_eq_div_mul]
  · show (em.mantissa % 2 != 0) = true ↔ _
    rw [hmod, bne_iff_ne]
    rcases Nat.mod_two_eq_zero_or_one em.mantissa with heven | hodd
    · rw [heven]
      omega
    · rw [hodd]
      omega
  · show (em.roundBit || em.stickyBit) = true ↔ _
    rw [hmod, Bool.or_eq_true, h.roundBit, h.stickyBit]
    rcases Nat.mod_two_eq_zero_or_one em.mantissa with heven | hodd
    · rw [heven]
      omega
    · rw [hodd]
      omega

theorem Summarizes.shiftRight (h : Summarizes n d em) (hd : 0 < d) (k : Nat) :
    Summarizes n (d * 2 ^ k) (em >>> k) := by
  show Summarizes n (d * 2 ^ k) (k.repeat ExtendedMantissa.shiftRightOne em)
  induction k with
  | zero => rwa [Nat.pow_zero, Nat.mul_one]
  | succ k ih =>
    rw [Nat.pow_succ, ← Nat.mul_assoc]
    exact ih.shiftRightOne (Nat.mul_pos hd (Nat.two_pow_pos k))

/-- **A summary is enough to round.** -/
theorem Summarizes.roundedMantissa (h : Summarizes n d em) :
    em.roundedMantissa = quotientEven n d := by
  obtain ⟨hmantissa, hround, hsticky⟩ := h
  obtain ⟨m, round, sticky⟩ := em
  subst hmantissa
  rw [ExtendedMantissa.roundedMantissa, quotientEven]
  cases round <;> cases sticky <;>
    simp only [Bool.false_eq_true, false_iff, true_iff, ExtendedMantissa.accuracy,
      Accuracy.roundToNearestEven] at hround hsticky ⊢
  · rw [if_pos (by omega)]
  · rw [if_pos (by omega)]
  · rw [if_neg (by omega), if_neg (by omega)]
  · rw [if_neg (by omega), if_pos (by omega)]

/-! ## 2. Rounding -/

/-- The unpacked form of an integer that is a double: its mantissa has 53 digits. -/
inductive Exact : UnpackedFloat → Int → Prop where
  | zero : Exact (.zero .positive) 0
  | finite (s : Sign) {n m : Nat} (hm : 0 < m) (hn : 0 < n) (h : m * 2 ^ n.log2 = n * 2 ^ 52) :
      Exact (.finite s m ((n.log2 : Int) - 52) hm) (s.apply n)

theorem log2_mul_two_pow {m : Nat} (hm : 0 < m) (k : Nat) : (m * 2 ^ k).log2 = m.log2 + k := by
  have hpos : m * 2 ^ k ≠ 0 := Nat.pos_iff_ne_zero.mp (Nat.mul_pos hm (Nat.two_pow_pos k))
  rw [Nat.log2_eq_iff hpos]
  have hm' : m ≠ 0 := Nat.pos_iff_ne_zero.mp hm
  constructor
  · rw [Nat.pow_add]
    exact Nat.mul_le_mul_right _ (Nat.log2_self_le hm')
  · rw [Nat.add_right_comm, Nat.pow_add]
    exact Nat.mul_lt_mul_of_pos_right Nat.lt_log2_self (Nat.two_pow_pos k)

/-- Sizes of numbers that differ by powers of two. -/
theorem log2_add_eq {m n a b : Nat} (hm : 0 < m) (hn : 0 < n) (h : m * 2 ^ a = n * 2 ^ b) :
    m.log2 + a = n.log2 + b := by
  rw [← log2_mul_two_pow hm, h, log2_mul_two_pow hn]

/-- The mantissa of a rounded number. -/
theorem quotientEven_mul_two_pow {m n a b : Nat} (hm : 0 < m) (hn : 0 < n)
    (h : m * 2 ^ a = n * 2 ^ b) (hdigits : 52 ≤ m.log2) :
    quotientEven m (2 ^ (m.log2 - 52)) * 2 ^ n.log2 = nearest n * 2 ^ 52 := by
  have hlog := log2_add_eq hm hn h
  have hsame : quotientEven m (2 ^ (m.log2 - 52)) = quotientEven (n * 2 ^ 52) (2 ^ n.log2) := by
    refine quotientEven_congr ?_ (Nat.two_pow_pos _) (Nat.two_pow_pos _)
    have hscaled : m * 2 ^ n.log2 * 2 ^ a = n * 2 ^ 52 * 2 ^ (m.log2 - 52) * 2 ^ a := by
      rw [Nat.mul_right_comm, h, Nat.mul_assoc n, Nat.mul_assoc n, Nat.mul_assoc n, ← Nat.pow_add,
        ← Nat.pow_add, ← Nat.pow_add]
      congr 2
      omega
    exact Nat.mul_right_cancel (Nat.two_pow_pos a) hscaled
  rw [hsame]
  by_cases hlarge : 52 ≤ n.log2
  · have hunit : 2 ^ n.log2 = unit n * 2 ^ 52 := by
      rw [unit, ← Nat.pow_add, Nat.sub_add_cancel hlarge]
    rw [hunit, quotientEven_scale n _ (Nat.two_pow_pos 52), ← Nat.mul_assoc, nearest]
  · have hsmall : n < 2 ^ 53 := by
      have hlt : n < 2 ^ (n.log2 + 1) := Nat.lt_log2_self
      exact hlt.trans_le (Nat.pow_le_pow_right Nat.two_pos (by omega))
    have hwhole : 2 ^ n.log2 ∣ n * 2 ^ 52 :=
      Nat.dvd_mul_left_of_dvd (Nat.pow_dvd_pow 2 (by omega)) n
    rw [nearest_of_le hsmall.le, quotientEven_of_dvd hwhole (Nat.two_pow_pos _)]

/-- A rounded mantissa has 53 digits, or is the least number of 54. -/
theorem mantissa_bounds {n q : Nat} (hn : 0 < n) (h : q * 2 ^ n.log2 = nearest n * 2 ^ 52) :
    2 ^ 52 ≤ q ∧ q ≤ 2 ^ 53 := by
  obtain ⟨hlow, hhigh⟩ := nearest_bounds hn
  constructor
  · refine Nat.le_of_mul_le_mul_right ?_ (Nat.two_pow_pos n.log2)
    calc
      2 ^ 52 * 2 ^ n.log2 = 2 ^ n.log2 * 2 ^ 52 := Nat.mul_comm _ _
      _ ≤ nearest n * 2 ^ 52 := Nat.mul_le_mul_right _ hlow
      _ = q * 2 ^ n.log2 := h.symm
  · refine Nat.le_of_mul_le_mul_right ?_ (Nat.two_pow_pos n.log2)
    calc
      q * 2 ^ n.log2 = nearest n * 2 ^ 52 := h
      _ ≤ 2 ^ (n.log2 + 1) * 2 ^ 52 := Nat.mul_le_mul_right _ hhigh
      _ = 2 ^ 53 * 2 ^ n.log2 := by rw [← Nat.pow_add, ← Nat.pow_add]; congr 1; omega

/-- The exponent of a double of the size of an integer. -/
theorem targetExponent_eq {m l : Nat} {e : Int} (h : (m.log2 : Int) + e = l) :
    Format.binary64.targetExponent (totalExponent m e) = (l : Int) - 52 := by
  have hbits : Format.binary64.mantissaBits = 53 := rfl
  have hleast : Format.binary64.minExponent = -1074 := by decide
  rw [Format.targetExponent, totalExponent, hbits, hleast]
  omega

theorem shiftToTargetExponent_eq {m l : Nat} {e : Int} (h : (m.log2 : Int) + e = l)
    (hdigits : 52 ≤ m.log2) : shiftToTargetExponent .binary64 m e .exact =
      ((⟨m, false, false⟩ : ExtendedMantissa) >>> (m.log2 - 52), (l : Int) - 52) := by
  have hamount : ((l : Int) - 52 - e).toNat = m.log2 - 52 := by omega
  simp only [shiftToTargetExponent, targetExponent_eq h, shiftToExponent, hamount,
    ExtendedMantissa.ofMantissaAndAccuracy]
  congr 1
  omega

/-- A mantissa of 53 digits is not shifted any more; the least one of 54 digits loses a zero. -/
theorem shiftToTargetExponent_exact {n q l : Nat} (hn : 0 < n) (h : q * 2 ^ l = n * 2 ^ 52)
    (hlow : 2 ^ 52 ≤ q) (hhigh : q ≤ 2 ^ 53) :
    (shiftToTargetExponent .binary64 q ((l : Int) - 52) .exact).1.mantissa * 2 ^ n.log2 =
        n * 2 ^ 52 ∧
      (shiftToTargetExponent .binary64 q ((l : Int) - 52) .exact).2 = (n.log2 : Int) - 52 := by
  have hpos : 0 < q := Nat.lt_of_lt_of_le (Nat.two_pow_pos 52) hlow
  have hlog := log2_add_eq hpos hn h
  have hdigits : 52 ≤ q.log2 := (Nat.le_log2 (Nat.pos_iff_ne_zero.mp hpos)).mpr hlow
  rw [shiftToTargetExponent_eq (l := n.log2) (by omega) hdigits]
  refine ⟨?_, rfl⟩
  have hsummary := (summarizes_exact q).shiftRight Nat.one_pos (q.log2 - 52)
  rw [Nat.one_mul] at hsummary
  show ExtendedMantissa.mantissa _ * 2 ^ n.log2 = n * 2 ^ 52
  rw [hsummary.mantissa, ← h]
  rcases hhigh.eq_or_lt with rfl | hlt
  · have hlast : (2 ^ 53).log2 = 53 := Nat.log2_two_pow
    rw [hlast] at hlog ⊢
    rw [show n.log2 = l + 1 by omega, Nat.pow_succ]
    omega
  · have hlast : q.log2 = 52 := by
      have hless : q.log2 < 53 := (Nat.log2_lt (Nat.pos_iff_ne_zero.mp hpos)).mpr hlt
      omega
    rw [hlast, show n.log2 = l by omega, Nat.sub_self, Nat.pow_zero, Nat.div_one]

theorem exact_finite (s : Sign) {n : Nat} (hn : 0 < n) {em : ExtendedMantissa} {e : Int}
    (h : em.mantissa * 2 ^ n.log2 = n * 2 ^ 52) (he : e = (n.log2 : Int) - 52) :
    Exact (if h : em.mantissa = 0 then .zero s
      else .finite s em.mantissa e (Nat.pos_of_ne_zero h)) (s.apply n) := by
  have hpos : em.mantissa ≠ 0 := by
    intro hzero
    rw [hzero, Nat.zero_mul] at h
    have := Nat.mul_pos hn (Nat.two_pow_pos 52)
    omega
  rw [dif_neg hpos]
  subst he
  exact .finite s (Nat.pos_of_ne_zero hpos) hn h

/-- **A number is rounded to the double nearest to it**, if its mantissa has digits enough. -/
theorem exact_roundWithAccuracy (s : Sign) {m n a b : Nat} (hm : 0 < m) (hn : 0 < n)
    (h : m * 2 ^ a = n * 2 ^ b) (hdigits : 52 ≤ m.log2) :
    Exact (roundWithAccuracy .binary64 s m ((a : Int) - b) .exact) (s.apply (nearest n)) := by
  have hlog := log2_add_eq hm hn h
  have hsummary := (summarizes_exact m).shiftRight Nat.one_pos (m.log2 - 52)
  rw [Nat.one_mul] at hsummary
  have hvalue := quotientEven_mul_two_pow hm hn h hdigits
  rw [← hsummary.roundedMantissa] at hvalue
  obtain ⟨hlow, hhigh⟩ := mantissa_bounds hn hvalue
  obtain ⟨hmantissa, hexponent⟩ :=
    shiftToTargetExponent_exact (nearest_pos hn) hvalue hlow hhigh
  simp only [roundWithAccuracy,
    shiftToTargetExponent_eq (by omega : (m.log2 : Int) + (a - b) = (n.log2 : Nat)) hdigits]
  exact exact_finite s (nearest_pos hn) hmantissa hexponent

/-- **A number is rounded to the double nearest to it.** -/
theorem exact_round (s : Sign) {m n a b : Nat} (hm : 0 < m) (hn : 0 < n)
    (h : m * 2 ^ a = n * 2 ^ b) :
    Exact (UnpackedFloat.round .binary64 s m ((a : Int) - b)) (s.apply (nearest n)) := by
  have hlog := log2_add_eq hm hn h
  have htarget := targetExponent_eq (by omega : (m.log2 : Int) + (a - b) = (n.log2 : Nat))
  have hamount : ((a : Int) - b - ((n.log2 : Int) - 52)).toNat = 52 - m.log2 := by omega
  simp only [UnpackedFloat.round, decreaseExponent, htarget, hamount, Nat.shiftLeft_eq]
  have hexponent : (a : Int) - b - (52 - m.log2 : Nat) = a - (b + (52 - m.log2) : Nat) := by
    omega
  rw [hexponent]
  refine exact_roundWithAccuracy s (Nat.mul_pos hm (Nat.two_pow_pos _)) hn ?_ ?_
  · rw [Nat.mul_right_comm, h, Nat.mul_assoc, ← Nat.pow_add]
  · rw [log2_mul_two_pow hm]
    omega

/-- **An integer is rounded to the double nearest to it.** -/
theorem exact_normalize {i j : Int} {a b : Nat} (h : i * 2 ^ a = j * 2 ^ b) :
    Exact (UnpackedFloat.normalize .binary64 i ((a : Int) - b) .positive) (nearestInt j) := by
  have hpow : ∀ k : Nat, 0 < (2 : Int) ^ k := fun k => Int.pow_pos (by decide)
  have hsign : i.sign = j.sign := by
    have hsigns := congrArg Int.sign h
    rwa [Int.sign_mul, Int.sign_mul, Int.sign_eq_one_of_pos (hpow a),
      Int.sign_eq_one_of_pos (hpow b), Int.mul_one, Int.mul_one] at hsigns
  have hnatAbs : i.natAbs * 2 ^ a = j.natAbs * 2 ^ b := by
    have hsizes := congrArg Int.natAbs h
    rwa [Int.natAbs_mul, Int.natAbs_mul, Int.natAbs_pow, Int.natAbs_pow] at hsizes
  rcases lt_trichotomy i 0 with hneg | rfl | hpos
  · have hj : j < 0 := Int.sign_eq_neg_one_iff_neg.mp (hsign ▸ Int.sign_eq_neg_one_of_neg hneg)
    have hround := exact_round .negative (by omega) (by omega) hnatAbs
    rw [UnpackedFloat.normalize, compare_lt_iff_lt.mpr hneg]
    rw [nearestInt, Int.sign_eq_neg_one_of_neg hj, Int.neg_one_mul]
    rwa [show i.natAbs = (-i).toNat by omega] at hround
  · have hj : j = 0 := Int.sign_eq_zero_iff_zero.mp hsign.symm
    rw [hj, nearestInt_zero]
    exact .zero
  · have hj : 0 < j := Int.sign_eq_one_iff_pos.mp (hsign ▸ Int.sign_eq_one_of_pos hpos)
    have hround := exact_round .positive (by omega) (by omega) hnatAbs
    rw [UnpackedFloat.normalize, compare_gt_iff_gt.mpr hpos]
    rw [nearestInt, Int.sign_eq_one_of_pos hj, Int.one_mul]
    rwa [show i.natAbs = i.toNat by omega] at hround

/-! ## 3. Packed doubles -/

theorem log2_mantissa {m n : Nat} (hm : 0 < m) (hn : 0 < n) (h : m * 2 ^ n.log2 = n * 2 ^ 52) :
    m.log2 = 52 := by
  have hlog := log2_add_eq hm hn h
  omega

theorem natAbs_apply (s : Sign) (n : Nat) : (s.apply n).natAbs = n := by
  cases s with
  | negative => exact Int.natAbs_neg n
  | positive => rfl

/-- The exponents of integers are neither the least nor the greatest. -/
theorem toNat_exponent {l : Nat} (hl : l < 1024) : (BitVec.ofNat 11 (l + 1023)).toNat = l + 1023 ∧
    BitVec.ofNat 11 (l + 1023) ≠ -1#11 ∧ BitVec.ofNat 11 (l + 1023) ≠ 0#11 := by
  have hexponent : (BitVec.ofNat 11 (l + 1023)).toNat = l + 1023 := by
    rw [BitVec.toNat_ofNat]
    omega
  refine ⟨hexponent, fun hones => ?_, fun hzero => ?_⟩
  · have hword := congrArg BitVec.toNat hones
    rw [hexponent, show (-1#11).toNat = 2047 from rfl] at hword
    omega
  · have hword := congrArg BitVec.toNat hzero
    rw [hexponent, show (0#11).toNat = 0 from rfl] at hword
    omega

/-- The leading digit of a mantissa is left out of the word. -/
theorem toNat_leading {m : Nat} (hm : 0 < m) (hdigits : m.log2 = 52) :
    (1#1 ++ BitVec.ofNat 52 m).toNat = m := by
  obtain ⟨hlow, hhigh⟩ := (Nat.log2_eq_iff (Nat.pos_iff_ne_zero.mp hm)).mp hdigits
  have hless : m % 2 ^ 52 < 2 ^ 52 := Nat.mod_lt m (Nat.two_pow_pos 52)
  rw [BitVec.toNat_append, BitVec.toNat_ofNat, BitVec.toNat_ofNat, Nat.shiftLeft_eq, Nat.mul_comm,
    ← Nat.two_pow_add_eq_or_of_lt hless]
  omega

/-- The word of a double whose mantissa has 53 digits. -/
theorem pack_finite (s : Sign) {m l : Nat} (hm : 0 < m) (hdigits : m.log2 = 52) (hl : l < 1024) :
    UnpackedFloat.pack .binary64 (.finite s m ((l : Int) - 52) hm) =
      packComponents .binary64 s (BitVec.ofNat 11 (l + 1023)) (BitVec.ofNat 52 m) := by
  have hbias : Format.binary64.exponentBias = 1023 := by decide
  have hbits : Format.binary64.mantissaBits = 53 := rfl
  have hexponent : ((l : Int) - 52 + (1023 : Nat) + (52 : Nat)).toNat = l + 1023 := by omega
  simp only [UnpackedFloat.pack, hbias, hbits, hdigits, hexponent]
  rw [if_neg (by omega), if_pos trivial]

/-- **What is packed is unpacked again.** -/
theorem unpack_pack {u : UnpackedFloat} {i : Int} (h : Exact u i) (hi : i.natAbs.log2 < 1024) :
    (Float.Model.pack u).unpack = u := by
  show UnpackedFloat.unpack .binary64 (UnpackedFloat.pack .binary64 u) = u
  cases h with
  | zero => exact unpack_packedZero
  | @finite s n m hm hn h =>
    have hdigits := log2_mantissa hm hn h
    rw [natAbs_apply] at hi
    rw [pack_finite s hm hdigits hi, UnpackedFloat.unpack]
    simp only [unpackExponent_packComponents, unpackMantissa_packComponents,
      unpackSign_packComponents, Sign.ofBitVec_toBitVec]
    obtain ⟨hexponent, hones, hzero⟩ := toNat_exponent hi
    have hbias : Format.binary64.exponentBias = 1023 := by decide
    rw [if_neg hones, if_neg hzero]
    have hunbiased : ((n.log2 + 1023 : Nat) : Int) - ((1023 : Nat) + (52 : Nat)) =
        (n.log2 : Int) - 52 := by omega
    simp only [toNat_leading hm hdigits, hexponent, hbias]
    exact congrArg (fun e => UnpackedFloat.finite s m e hm) hunbiased

/-! ## 4. Arithmetic on unpacked doubles -/

variable {u v : UnpackedFloat} {i j : Int}

theorem apply_mul (s : Sign) (a b : Int) : s.apply (a * b) = s.apply a * b := by
  cases s with
  | negative => exact Int.neg_mul_eq_neg_mul a b
  | positive => rfl

theorem apply_neg (s : Sign) (a : Int) : (-s).apply a = -s.apply a := by
  cases s with
  | negative => exact (Int.neg_neg a).symm
  | positive => rfl

theorem nearestInt_apply (s : Sign) (n : Nat) : nearestInt (s.apply n) = s.apply (nearest n) := by
  cases s with
  | negative =>
    show nearestInt (-(n : Int)) = -(nearest n : Int)
    rw [nearestInt_neg, nearestInt_natCast]
  | positive => exact nearestInt_natCast n

/-- An integer that is a double is not rounded. -/
theorem Exact.nearestInt_eq (h : Exact u i) : nearestInt i = i := by
  cases h with
  | zero => exact nearestInt_zero
  | @finite s n m hm hn h =>
    have hnearest : nearest n = n := by
      refine nearest_of_dvd ?_
      by_cases hlarge : 52 ≤ n.log2
      · refine ⟨m, Nat.mul_right_cancel (Nat.two_pow_pos 52) ?_⟩
        rw [← h, Nat.mul_comm (unit n), Nat.mul_assoc, unit, ← Nat.pow_add,
          Nat.sub_add_cancel hlarge]
      · rw [unit, Nat.sub_eq_zero_of_le (by omega)]
        exact Nat.one_dvd n
    rw [nearestInt_apply, hnearest]

/-- A mantissa at a smaller exponent. -/
theorem decreaseExponent_mul (s : Sign) {n m l : Nat} (h : m * 2 ^ n.log2 = n * 2 ^ 52)
    (hl : l ≤ n.log2) :
    s.apply (decreaseExponent m ((n.log2 : Int) - 52) ((l : Int) - 52)).1 * 2 ^ l =
      s.apply n * 2 ^ 52 := by
  have hamount : ((n.log2 : Int) - 52 - ((l : Int) - 52)).toNat = n.log2 - l := by omega
  have hvalue : (m <<< (n.log2 - l)) * 2 ^ l = n * 2 ^ 52 := by
    rw [Nat.shiftLeft_eq, Nat.mul_assoc, ← Nat.pow_add, Nat.sub_add_cancel hl, h]
  rw [decreaseExponent, hamount, ← apply_mul, ← apply_mul]
  exact_mod_cast congrArg (fun k : Nat => s.apply k) hvalue

/-- **The sum of two doubles is the double nearest to the sum.** -/
theorem Exact.add (hu : Exact u i) (hv : Exact v j) :
    Exact (UnpackedFloat.add .binary64 u v) (nearestInt (i + j)) := by
  cases hu with
  | zero =>
    rw [Int.zero_add, hv.nearestInt_eq]
    cases hv with
    | zero => exact .zero
    | finite s hm hn h => exact .finite s hm hn h
  | @finite s n m hm hn h =>
    cases hv with
    | zero =>
      rw [Int.add_zero, (Exact.finite s hm hn h).nearestInt_eq]
      exact .finite s hm hn h
    | @finite s' n' m' hm' hn' h' =>
      have hmin : min ((n.log2 : Int) - 52) ((n'.log2 : Int) - 52) =
          (min n.log2 n'.log2 : Nat) - (52 : Nat) := by omega
      simp only [UnpackedFloat.add, hmin]
      refine exact_normalize ?_
      have hfirst := decreaseExponent_mul s h (Nat.min_le_left n.log2 n'.log2)
      have hsecond := decreaseExponent_mul s' h' (Nat.min_le_right n.log2 n'.log2)
      rw [Int.add_mul, Int.add_mul]
      exact congrArg₂ (· + ·) hfirst hsecond

/-- **The difference of two doubles is the double nearest to the difference.** -/
theorem Exact.sub (hu : Exact u i) (hv : Exact v j) :
    Exact (UnpackedFloat.sub .binary64 u v) (nearestInt (i - j)) := by
  cases hu with
  | zero =>
    rw [Int.zero_sub, nearestInt_neg, hv.nearestInt_eq]
    cases hv with
    | zero => exact .zero
    | finite s hm hn h =>
      rw [← apply_neg]
      exact .finite (-s) hm hn h
  | @finite s n m hm hn h =>
    cases hv with
    | zero =>
      rw [Int.sub_zero, (Exact.finite s hm hn h).nearestInt_eq]
      exact .finite s hm hn h
    | @finite s' n' m' hm' hn' h' =>
      have hmin : min ((n.log2 : Int) - 52) ((n'.log2 : Int) - 52) =
          (min n.log2 n'.log2 : Nat) - (52 : Nat) := by omega
      simp only [UnpackedFloat.sub, hmin]
      refine exact_normalize ?_
      have hfirst := decreaseExponent_mul s h (Nat.min_le_left n.log2 n'.log2)
      have hsecond := decreaseExponent_mul s' h' (Nat.min_le_right n.log2 n'.log2)
      rw [Int.sub_mul, Int.sub_mul]
      exact congrArg₂ (· - ·) hfirst hsecond

theorem apply_mul_apply (s s' : Sign) (a b : Int) :
    (s * s').apply (a * b) = s.apply a * s'.apply b := by
  cases s with
  | negative =>
    cases s' with
    | negative => exact (Int.neg_mul_neg a b).symm
    | positive => exact Int.neg_mul_eq_neg_mul a b
  | positive =>
    cases s' with
    | negative => exact Int.neg_mul_eq_mul_neg a b
    | positive => rfl

/-- **The product of two doubles is the double nearest to the product.** Products with zero are left
    out: they may be the other zero. -/
theorem Exact.mul (hu : Exact u i) (hv : Exact v j) (hi : i ≠ 0) (hj : j ≠ 0) :
    Exact (UnpackedFloat.mul .binary64 u v) (nearestInt (i * j)) := by
  cases hu with
  | zero => exact absurd rfl hi
  | @finite s n m hm hn h =>
    cases hv with
    | zero => exact absurd rfl hj
    | @finite s' n' m' hm' hn' h' =>
      have hvalue : m * m' * 2 ^ (n.log2 + n'.log2) = n * n' * 2 ^ 104 := by
        rw [Nat.pow_add, Nat.mul_mul_mul_comm, h, h', Nat.mul_mul_mul_comm, ← Nat.pow_add]
      have hexponent : (n.log2 : Int) - 52 + ((n'.log2 : Int) - 52) =
          (n.log2 + n'.log2 : Nat) - (104 : Nat) := by omega
      have hdigits : 52 ≤ (m * m').log2 := by
        rw [← log2_mantissa hm hn h]
        exact log2_mono hm (Nat.le_mul_of_pos_right m hm')
      rw [← apply_mul_apply, ← Int.natCast_mul, nearestInt_apply]
      simp only [UnpackedFloat.mul, hexponent]
      exact exact_roundWithAccuracy (s * s') (Nat.mul_pos hm hm') (Nat.mul_pos hn hn') hvalue
        hdigits

/-- The other sign. Zero is left out: it has a double for each sign. -/
theorem Exact.neg (hu : Exact u i) (hi : i ≠ 0) : Exact u.neg (-i) := by
  cases hu with
  | zero => exact absurd rfl hi
  | finite s hm hn h =>
    rw [← apply_neg]
    exact .finite (-s) hm hn h

/-- The less of two doubles has the less exponent, or the less mantissa with the same one. -/
theorem log2_lt_or_lt {m n m' n' : Nat} (hn : 0 < n) (h : m * 2 ^ n.log2 = n * 2 ^ 52)
    (h' : m' * 2 ^ n'.log2 = n' * 2 ^ 52) (hless : n < n') :
    n.log2 < n'.log2 ∨ n.log2 = n'.log2 ∧ m < m' := by
  rcases (log2_mono hn hless.le).lt_or_eq with hlt | heq
  · exact .inl hlt
  · refine .inr ⟨heq, Nat.lt_of_mul_lt_mul_right (a := 2 ^ n'.log2) ?_⟩
    rw [h', ← heq, h]
    exact Nat.mul_lt_mul_of_pos_right hless (Nat.two_pow_pos 52)

/-- The exponents of two doubles, and then their mantissas, order them. -/
theorem compare_compares {m n m' n' : Nat} (hn : 0 < n) (hn' : 0 < n')
    (h : m * 2 ^ n.log2 = n * 2 ^ 52) (h' : m' * 2 ^ n'.log2 = n' * 2 ^ 52) :
    ((compare ((n.log2 : Int) - 52) ((n'.log2 : Int) - 52)).then (compare m m')).Compares n n' := by
  rcases Nat.lt_trichotomy n n' with hless | rfl | hgreater
  · rcases log2_lt_or_lt hn h h' hless with hlt | ⟨heq, hlt⟩
    · rw [compare_lt_iff_lt.mpr (by omega : (n.log2 : Int) - 52 < (n'.log2 : Int) - 52)]
      exact hless
    · rw [heq, compare_eq_iff_eq.mpr rfl, compare_lt_iff_lt.mpr hlt]
      exact hless
  · have hsame : m = m' := Nat.mul_right_cancel (Nat.two_pow_pos _) (h.trans h'.symm)
    rw [hsame, compare_eq_iff_eq.mpr rfl, compare_eq_iff_eq.mpr rfl]
    exact rfl
  · rcases log2_lt_or_lt hn' h' h hgreater with hlt | ⟨heq, hlt⟩
    · rw [compare_gt_iff_gt.mpr (by omega : (n'.log2 : Int) - 52 < (n.log2 : Int) - 52)]
      exact hgreater
    · rw [heq, compare_eq_iff_eq.mpr rfl, compare_gt_iff_gt.mpr hlt]
      exact hgreater

theorem Compares.natCast {order : Ordering} {m n : Nat} (h : order.Compares m n) :
    order.Compares (m : Int) n ∧ order.Compares (-(n : Int)) (-(m : Int)) := by
  cases order <;> simp only [Ordering.Compares] at h ⊢ <;> omega

/-- **Doubles are compared as their integers are.** -/
theorem Exact.compare (hu : Exact u i) (hv : Exact v j) :
    ∃ order : Ordering, u.compare v = some order ∧ order.Compares i j := by
  cases hu with
  | zero =>
    cases hv with
    | zero => exact ⟨.eq, rfl, rfl⟩
    | @finite s n m hm hn h =>
      cases s with
      | negative => exact ⟨.gt, rfl, Int.neg_neg_of_pos (Int.natCast_pos.mpr hn)⟩
      | positive => exact ⟨.lt, rfl, Int.natCast_pos.mpr hn⟩
  | @finite s n m hm hn h =>
    cases hv with
    | zero =>
      cases s with
      | negative => exact ⟨.lt, rfl, Int.neg_neg_of_pos (Int.natCast_pos.mpr hn)⟩
      | positive => exact ⟨.gt, rfl, Int.natCast_pos.mpr hn⟩
    | @finite s' n' m' hm' hn' h' =>
      have horder := compare_compares hn hn' h h'
      cases s with
      | negative =>
        cases s' with
        | negative => exact ⟨_, rfl, Ordering.compares_swap.mpr (Compares.natCast horder).2⟩
        | positive =>
          refine ⟨.lt, rfl, ?_⟩
          show -(n : Int) < n'
          omega
      | positive =>
        cases s' with
        | negative =>
          refine ⟨.gt, rfl, ?_⟩
          show -(n' : Int) < n
          omega
        | positive => exact ⟨_, rfl, (Compares.natCast horder).1⟩

/-! ## 5. Doubles -/

/-- The doubles with an integer as their value. The negative zero is none of them. -/
inductive HasValue : Float → Int → Prop where
  | packed {u : UnpackedFloat} {i : Int} (h : Exact u i) (hi : i.natAbs.log2 < 1024) :
      HasValue (.ofModel (.pack u)) i

variable {x y : Float}

theorem HasValue.exact (h : HasValue x i) : Exact x.toModel.unpack i := by
  cases h with
  | packed h hi =>
    show Exact (Float.Model.pack _).unpack i
    rwa [unpack_pack h hi]

theorem HasValue.natAbs_lt (h : HasValue x i) : i.natAbs.log2 < 1024 := by
  cases h with
  | packed h hi => exact hi

theorem HasValue.add (hx : HasValue x i) (hy : HasValue y j)
    (h : (nearestInt (i + j)).natAbs.log2 < 1024) : HasValue (x + y) (nearestInt (i + j)) :=
  .packed (hx.exact.add hy.exact) h

theorem HasValue.sub (hx : HasValue x i) (hy : HasValue y j)
    (h : (nearestInt (i - j)).natAbs.log2 < 1024) : HasValue (x - y) (nearestInt (i - j)) :=
  .packed (hx.exact.sub hy.exact) h

theorem HasValue.mul (hx : HasValue x i) (hy : HasValue y j) (hi : i ≠ 0) (hj : j ≠ 0)
    (h : (nearestInt (i * j)).natAbs.log2 < 1024) : HasValue (x * y) (nearestInt (i * j)) :=
  .packed (hx.exact.mul hy.exact hi hj) h

theorem HasValue.neg (hx : HasValue x i) (hi : i ≠ 0) : HasValue (-x) (-i) :=
  .packed (hx.exact.neg hi) (by rw [Int.natAbs_neg]; exact hx.natAbs_lt)

theorem HasValue.lt_iff (hx : HasValue x i) (hy : HasValue y j) : x < y ↔ i < j := by
  obtain ⟨order, hcompare, horder⟩ := hx.exact.compare hy.exact
  show decide ((x.toModel.unpack.compare y.toModel.unpack == some .lt) = true) = true ↔ i < j
  rw [hcompare, ← horder.eq_lt, decide_eq_true_iff, beq_iff_eq, Option.some_inj]

theorem HasValue.beq_iff (hx : HasValue x i) (hy : HasValue y j) : (x == y) = true ↔ i = j := by
  obtain ⟨order, hcompare, horder⟩ := hx.exact.compare hy.exact
  show (x.toModel.unpack.compare y.toModel.unpack == some .eq) = true ↔ i = j
  rw [hcompare, ← horder.eq_eq, beq_iff_eq, Option.some_inj]

theorem HasValue.isFinite (hx : HasValue x i) : x.isFinite = true := by
  have hexact := hx.exact
  show x.toModel.unpack.isFinite = true
  cases hu : x.toModel.unpack with
  | zero s => rfl
  | finite s m e hm => rfl
  | infinity s =>
    rw [hu] at hexact
    cases hexact
  | notANumber =>
    rw [hu] at hexact
    cases hexact

/-! ## 6. Converted integers -/

/-- Sizes within a power of two. -/
theorem log2_le_of_le {n l : Nat} (h : n ≤ 2 ^ l) : n.log2 ≤ l := by
  rcases Nat.eq_zero_or_pos n with rfl | hpos
  · rw [Nat.log2_zero]
    exact Nat.zero_le l
  · rw [← Nat.log2_two_pow (n := l)]
    exact log2_mono hpos h

/-- Rounding makes a number longer by one digit at most. -/
theorem log2_nearest_le (n : Nat) : (nearest n).log2 ≤ n.log2 + 1 := by
  rcases Nat.eq_zero_or_pos n with rfl | hpos
  · decide
  · exact log2_le_of_le (nearest_bounds hpos).2

theorem hasValue_zero : HasValue 0 0 :=
  .packed .zero (by decide)

theorem hasValue_one : HasValue (Float.ofBits 0x3FF0000000000000) 1 := by
  have hvalue : Exact (.finite .positive (2 ^ 52) (Nat.log2 1 - 52) (by decide)) 1 :=
    .finite .positive (n := 1) (by decide) (by decide) (by decide)
  exact HasValue.packed hvalue (by decide)

/-- A machine word is converted to the double nearest to it. -/
theorem hasValue_toFloat {n : Nat} (h : n < 2 ^ 53) : HasValue n.toUInt64.toFloat n := by
  have hword : n.toUInt64.toNat = n := UInt64.toNat_ofNat_of_lt' (h.trans (by decide))
  have hexact : Exact (UnpackedFloat.normalize .binary64 (n : Int) 0 .positive) (nearestInt n) :=
    exact_normalize (a := 0) (b := 0) rfl
  rw [nearestInt_natCast, nearest_of_le h.le] at hexact
  show HasValue
    (.ofModel (.pack (UnpackedFloat.normalize .binary64 n.toUInt64.toNat 0 .positive))) n
  rw [hword]
  refine .packed hexact ?_
  rw [Int.natAbs_natCast]
  exact Nat.lt_of_le_of_lt (log2_le_of_le h.le) (by decide)

/-- A number without a decimal exponent is rounded with as many digits as there are. -/
theorem ofScientific_zero {n : Nat} (hn : 0 < n) :
    UnpackedFloat.ofScientific .binary64 n 0 =
      roundWithAccuracy .binary64 .positive (n * 2 ^ 53) ((0 : Nat) - (53 : Nat)) .exact := by
  have hgreatest : ¬(0 : Int) > 2 ^ Format.binary64.exponentBits := by decide
  have hleast : ¬(0 : Int) < -(2 ^ Format.binary64.exponentBits + (n.log2 : Int)) := by
    have hrange : (2 : Int) ^ Format.binary64.exponentBits = 2048 := by decide
    rw [hrange]
    omega
  have hbits : Format.binary64.mantissaBits = 53 := rfl
  have hsign : Sign.positive * .positive = .positive := rfl
  have hexponent : -((53 : Nat) : Int) + 0 = (0 : Nat) - (53 : Nat) := by decide
  rw [UnpackedFloat.ofScientific, dif_neg (Nat.pos_iff_ne_zero.mp hn), if_neg hgreatest,
    if_neg hleast, if_pos (Int.le_refl 0), UnpackedFloat.mul, Nat.shiftLeft_eq, hbits, hsign,
    hexponent, Int.toNat_zero, Nat.pow_zero, Nat.mul_one]

/-- **A natural number is converted to the double nearest to it**, the small ones by way of a
    product with one. -/
theorem hasValue_ofNat {n : Nat} (h : n.log2 < 1023) : HasValue (Float.ofNat n) (nearest n) := by
  have hlimit : (nearest n).log2 < 1024 := Nat.lt_of_le_of_lt (log2_nearest_le n) (by omega)
  rcases Nat.eq_zero_or_pos n with rfl | hpos
  · have hzero : Float.ofNat 0 = .ofModel (.pack (.zero .positive)) := rfl
    rw [hzero, nearest_zero]
    exact .packed .zero (by decide)
  · show HasValue (Float.ofScientific n false 0) (nearest n)
    unfold Float.ofScientific
    by_cases hsmall : n < 2 ^ 53
    · have hproduct := (hasValue_toFloat hsmall).mul hasValue_one (by omega) (by decide)
      rw [Int.mul_one, nearestInt_natCast] at hproduct
      rw [dif_pos ⟨hsmall, by decide⟩]
      exact hproduct hlimit
    · have hround := exact_roundWithAccuracy .positive (m := n * 2 ^ 53) (a := 0) (b := 53)
        (Nat.mul_pos hpos (Nat.two_pow_pos 53)) hpos (Nat.mul_one _)
        (by rw [log2_mul_two_pow hpos]; omega)
      rw [dif_neg (fun hfast => hsmall hfast.1)]
      rw [← ofScientific_zero hpos] at hround
      exact .packed hround hlimit

/-- **An integer is converted to the double nearest to it.** -/
theorem hasValue_ofInt {i : Int} (h : i.natAbs.log2 < 1023) :
    HasValue (Float.ofInt i) (nearestInt i) := by
  cases i with
  | ofNat n =>
    rw [Int.ofNat_eq_natCast, nearestInt_natCast]
    exact hasValue_ofNat h
  | negSucc n =>
    have hpos : nearest (n + 1) ≠ 0 := Nat.pos_iff_ne_zero.mp (nearest_pos n.succ_pos)
    rw [Int.negSucc_eq, nearestInt_neg, ← Int.natCast_add_one, nearestInt_natCast]
    exact (hasValue_ofNat h).neg (Int.natCast_ne_zero.mpr hpos)

/-! ## 7. Doubles as machine integers -/

theorem toNat_append {a b : Nat} (v : BitVec a) (w : BitVec b) :
    (v ++ w).toNat = v.toNat * 2 ^ b + w.toNat := by
  rw [BitVec.toNat_append, Nat.shiftLeft_eq, Nat.mul_comm, Nat.two_pow_add_eq_or_of_lt w.isLt]

/-- The word of a double whose mantissa has 53 digits, as a number. -/
theorem toNat_pack_finite (s : Sign) {m l : Nat} (hm : 0 < m) (hdigits : m.log2 = 52)
    (hl : l < 1024) :
    (UnpackedFloat.pack .binary64 (.finite s m ((l : Int) - 52) hm)).toNat =
      (s.toBitVec.toNat * 2 ^ 11 + (l + 1023)) * 2 ^ 52 + m % 2 ^ 52 := by
  obtain ⟨hexponent, -, -⟩ := toNat_exponent hl
  rw [pack_finite s hm hdigits hl, packComponents, toNat_append, toNat_append, hexponent,
    BitVec.toNat_ofNat]

/-- A double is taken apart again. -/
theorem ofFloat?_pack_finite (s : Sign) {m l : Nat} (hm : 0 < m) (hdigits : m.log2 = 52)
    (hl : l < 1024) : ∃ narrowBelow,
      ofFloat? (.ofModel (.pack (.finite s m ((l : Int) - 52) hm))) =
        some ⟨decide (s.toBitVec.toNat = 1), m, (l : Int) - 52, narrowBelow⟩ := by
  have hword := toNat_pack_finite s hm hdigits hl
  obtain ⟨hlow, hhigh⟩ := (Nat.log2_eq_iff (Nat.pos_iff_ne_zero.mp hm)).mp hdigits
  have hsign : s.toBitVec.toNat < 2 := s.toBitVec.isLt
  generalize hbits : (Float.ofModel (.pack (.finite s m ((l : Int) - 52) hm))).toBits.toNat = bits
  have hvalue : bits = (s.toBitVec.toNat * 2 ^ 11 + (l + 1023)) * 2 ^ 52 + m % 2 ^ 52 :=
    hbits.symm.trans hword
  have hfraction : bits % Nat.pow 2 52 = m - 2 ^ 52 := by
    show bits % 2 ^ 52 = m - 2 ^ 52
    omega
  have hbiased : bits / Nat.pow 2 52 % Nat.pow 2 11 = l + 1023 := by
    show bits / 2 ^ 52 % 2 ^ 11 = l + 1023
    omega
  have hnegative : Nat.pow 2 63 ≤ bits ↔ s.toBitVec.toNat = 1 := by
    show 2 ^ 63 ≤ bits ↔ s.toBitVec.toNat = 1
    omega
  have hmantissa : Nat.pow 2 52 + (m - 2 ^ 52) = m := Nat.add_sub_cancel' hlow
  have hexponent : ((l + 1023 : Nat) : Int) - 1075 = (l : Int) - 52 := by omega
  simp only [ofFloat?, hbits, hfraction, hbiased, hnegative, hmantissa, hexponent]
  rw [if_neg (by omega), if_neg (by omega)]
  exact ⟨_, rfl⟩

theorem natAbs?_zero {b : Binary64} (h : b.mantissa = 0) : b.natAbs? = some 0 := by
  unfold natAbs?
  rw [h]
  split
  · rw [Nat.zero_mul]
  · rw [if_pos (Nat.zero_mod _), Nat.zero_div]

/-- Both zeros are the integer zero. -/
theorem toInt?_of_zero (h : x = 0 ∨ x = -0) : (ofFloat? x).bind Binary64.toInt? = some 0 := by
  have hparts : ∃ negative, ofFloat? x = some ⟨negative, 0, -1074, false⟩ := by
    rcases h with rfl | rfl
    · exact ⟨false, by decide⟩
    · exact ⟨true, by decide⟩
  obtain ⟨negative, hx⟩ := hparts
  rw [hx, Option.bind_some, Binary64.toInt?, natAbs?_zero rfl]
  cases negative <;> rfl

/-- The value of a double that is an integer. -/
theorem natAbs?_eq {n m : Nat} {b : Binary64} (hmantissa : b.mantissa = m)
    (hexponent : b.exponent = (n.log2 : Int) - 52) (h : m * 2 ^ n.log2 = n * 2 ^ 52) :
    b.natAbs? = some n := by
  unfold natAbs?
  rw [hmantissa, hexponent]
  by_cases hlarge : 52 ≤ n.log2
  · have hdifference : ((n.log2 : Int) - 52).toNat = n.log2 - 52 := by omega
    have hvalue : m * 2 ^ (n.log2 - 52) = n := by
      refine Nat.mul_right_cancel (Nat.two_pow_pos 52) ?_
      rw [Nat.mul_assoc, ← Nat.pow_add, Nat.sub_add_cancel hlarge, h]
    rw [if_pos (by omega), hdifference]
    exact congrArg some hvalue
  · have hdifference : (-((n.log2 : Int) - 52)).toNat = 52 - n.log2 := by omega
    have hvalue : m = n * 2 ^ (52 - n.log2) := by
      refine Nat.mul_right_cancel (Nat.two_pow_pos n.log2) ?_
      rw [h, Nat.mul_assoc, ← Nat.pow_add, Nat.sub_add_cancel (by omega)]
    rw [if_neg (by omega), hdifference, hvalue]
    show (if n * 2 ^ (52 - n.log2) % 2 ^ (52 - n.log2) = 0 then
      some (n * 2 ^ (52 - n.log2) / 2 ^ (52 - n.log2)) else none) = some n
    rw [if_pos (Nat.mul_mod_left _ _), Nat.mul_div_cancel n (Nat.two_pow_pos _)]

/-- **The integer that a double is**, as the doubles are read. -/
theorem HasValue.toInt? (h : HasValue x i) : (ofFloat? x).bind Binary64.toInt? = some i := by
  cases h with
  | packed h hi =>
    cases h with
    | zero => exact toInt?_of_zero (.inl (by decide))
    | @finite s n m hm hn h =>
      rw [natAbs_apply] at hi
      obtain ⟨narrowBelow, hparts⟩ := ofFloat?_pack_finite s hm (log2_mantissa hm hn h) hi
      rw [hparts, Option.bind_some, Binary64.toInt?, natAbs?_eq rfl rfl h]
      cases s with
      | negative => rfl
      | positive => rfl

/-! ## 8. Doubles by their parts -/

/-- The mantissa of a double that is an integer. -/
theorem mantissa_of_natAbs? {n : Nat} {b : Binary64} (h : b.natAbs? = some n) :
    b.mantissa * 2 ^ b.exponent.toNat = n * 2 ^ (-b.exponent).toNat := by
  simp only [natAbs?] at h
  split at h
  · next hexponent =>
    rw [show (-b.exponent).toNat = 0 by omega, Nat.pow_zero, Nat.mul_one]
    exact Option.some.inj h
  · next hexponent =>
    rw [show b.exponent.toNat = 0 by omega, Nat.pow_zero, Nat.mul_one]
    split at h
    · next hwhole =>
      rw [← Option.some.inj h]
      exact (Nat.div_mul_cancel (Nat.dvd_of_mod_eq_zero hwhole)).symm
    · cases h

/-- The word of a double, by its parts. -/
inductive HasParts (bits : Nat) (s : Sign) : Nat → Int → Prop where
  | subnormal {m : Nat} (hm : m < 2 ^ 52) (hbits : bits = s.toBitVec.toNat * 2 ^ 63 + m) :
      HasParts bits s m (-1074)
  | normal {m l : Nat} (hm : 2 ^ 52 ≤ m) (hm' : m < 2 ^ 53) (hl : 0 < l) (hl' : l < 2047)
      (hbits : bits = (s.toBitVec.toNat * 2 ^ 11 + l) * 2 ^ 52 + m % 2 ^ 52) :
      HasParts bits s m ((l : Int) - 1075)

/-- **What the parts of a double are.** -/
theorem hasParts_of_ofFloat? {b : Binary64} (h : ofFloat? x = some b) :
    ∃ s : Sign, HasParts x.toBits.toNat s b.mantissa b.exponent ∧
      b.negative = decide (s.toBitVec.toNat = 1) := by
  have hword : x.toBits.toNat < 2 ^ 64 := x.toBits.toNat_lt
  obtain ⟨s, hs⟩ : ∃ s : Sign, s.toBitVec.toNat = x.toBits.toNat / 2 ^ 63 := by
    rcases Nat.lt_or_ge x.toBits.toNat (2 ^ 63) with hlow | hhigh
    · refine ⟨.positive, ?_⟩
      show 0 = _
      omega
    · refine ⟨.negative, ?_⟩
      show 1 = _
      omega
  have hnegative : decide (Nat.pow 2 63 ≤ x.toBits.toNat) = decide (s.toBitVec.toNat = 1) := by
    rw [decide_eq_decide, hs]
    show 2 ^ 63 ≤ x.toBits.toNat ↔ _
    omega
  refine ⟨s, ?_⟩
  simp only [ofFloat?, Nat.pow_eq] at h
  split at h
  · cases h
  · split at h
    · obtain rfl := Option.some.inj h
      refine ⟨?_, hnegative⟩
      show HasParts x.toBits.toNat s (x.toBits.toNat % 2 ^ 52) (-1074)
      exact .subnormal (by omega) (by omega)
    · obtain rfl := Option.some.inj h
      refine ⟨?_, hnegative⟩
      show HasParts x.toBits.toNat s (2 ^ 52 + x.toBits.toNat % 2 ^ 52) _
      exact .normal (by omega) (by omega) (by omega) (by omega) (by omega)

/-- A word without digits is that of a zero. -/
theorem HasParts.eq_zero {s : Sign} {e : Int} (h : HasParts x.toBits.toNat s 0 e) :
    x = 0 ∨ x = -0 := by
  cases h with
  | normal hm => cases hm
  | subnormal hm hbits =>
    cases s with
    | positive =>
      refine .inl (Float.toBits_inj.mp (UInt64.toNat_inj.mp ?_))
      rw [hbits]
      decide
    | negative =>
      refine .inr (Float.toBits_inj.mp (UInt64.toNat_inj.mp ?_))
      rw [hbits]
      decide

/-- The word of an integer that is not zero is that of its double. -/
theorem HasParts.hasValue {s : Sign} {m n : Nat} {e : Int} (h : HasParts x.toBits.toNat s m e)
    (hn : 0 < n) (hwhole : m * 2 ^ e.toNat = n * 2 ^ (-e).toNat) : HasValue x (s.apply n) := by
  cases h with
  | subnormal hm hbits =>
    -- the unit is larger than all mantissas
    obtain ⟨k, hk, hlarge⟩ : ∃ k, (-(-1074 : Int)).toNat = k ∧ 52 ≤ k := ⟨1074, rfl, by decide⟩
    rw [hk, show (-1074 : Int).toNat = 0 from rfl, Nat.pow_zero, Nat.mul_one] at hwhole
    have hunit : 2 ^ 52 ≤ n * 2 ^ k :=
      (Nat.pow_le_pow_right Nat.two_pos hlarge).trans (Nat.le_mul_of_pos_left _ hn)
    exact absurd hm (Nat.not_lt.mpr (hwhole ▸ hunit))
  | @normal l hlow hhigh hl hl' hbits =>
    have hm : 0 < m := Nat.lt_of_lt_of_le (Nat.two_pow_pos 52) hlow
    have hdigits : m.log2 = 52 := (Nat.log2_eq_iff (Nat.pos_iff_ne_zero.mp hm)).mpr ⟨hlow, hhigh⟩
    have hlog := log2_add_eq hm hn hwhole
    have hl : l = n.log2 + 1023 := by omega
    have hexponent : (l : Int) - 1075 = (n.log2 : Int) - 52 := by omega
    have hexact : m * 2 ^ n.log2 = n * 2 ^ 52 := by
      refine Nat.mul_right_cancel (Nat.two_pow_pos (-((l : Int) - 1075)).toNat) ?_
      calc m * 2 ^ n.log2 * 2 ^ (-((l : Int) - 1075)).toNat
        _ = m * 2 ^ ((l : Int) - 1075).toNat * 2 ^ 52 := by
          rw [Nat.mul_assoc, Nat.mul_assoc, ← Nat.pow_add, ← Nat.pow_add]
          congr 2
          omega
        _ = n * 2 ^ 52 * 2 ^ (-((l : Int) - 1075)).toNat := by rw [hwhole, Nat.mul_right_comm]
    have hx : x = .ofModel (.pack (.finite s m ((n.log2 : Int) - 52) hm)) := by
      refine Float.toBits_inj.mp (UInt64.toNat_inj.mp ?_)
      rw [hbits, hl]
      exact (toNat_pack_finite s hm hdigits (by omega)).symm
    rw [hx]
    refine .packed (.finite s hm hn hexact) ?_
    rw [natAbs_apply]
    omega

/-- **The doubles that are integers.** -/
theorem toInt?_eq_some_iff :
    (ofFloat? x).bind Binary64.toInt? = some i ↔ HasValue x i ∨ x = -0 ∧ i = 0 := by
  constructor
  · intro h
    obtain ⟨b, hb, hint⟩ := Option.bind_eq_some_iff.mp h
    rw [Binary64.toInt?, Option.map_eq_some_iff] at hint
    obtain ⟨j, hj, hsigned⟩ := hint
    obtain ⟨n, hn, hcast⟩ := Option.bind_eq_some_iff.mp hj
    obtain rfl : (n : Int) = j := Option.some.inj hcast
    obtain ⟨s, hparts, hnegative⟩ := hasParts_of_ofFloat? hb
    have hi : i = s.apply n := by
      rw [← hsigned, hnegative]
      cases s <;> rfl
    have hwhole := mantissa_of_natAbs? hn
    rcases Nat.eq_zero_or_pos n with rfl | hpos
    · have hmantissa : b.mantissa = 0 := by
        rw [Nat.zero_mul] at hwhole
        exact (Nat.mul_eq_zero.mp hwhole).resolve_right (Nat.two_pow_pos _).ne'
      rw [hmantissa] at hparts
      have hzero : i = 0 := by
        rw [hi]
        cases s <;> rfl
      refine hparts.eq_zero.imp (fun hx => ?_) fun hx => ⟨hx, hzero⟩
      rw [hx, hzero]
      exact hasValue_zero
    · exact .inl (hi ▸ hparts.hasValue hpos hwhole)
  · rintro (h | ⟨hx, rfl⟩)
    · exact h.toInt?
    · exact toInt?_of_zero (.inr hx)

/-- **A double is equal to that of an integer** if and only if it is this integer. -/
theorem HasValue.beq_iff_toInt? (hx : HasValue x i) :
    (x == y) = true ↔ (ofFloat? y).bind Binary64.toInt? = some i := by
  constructor
  · intro heq
    have hint := hx.toInt?
    obtain ⟨-, -, rfl | ⟨hzero, hy⟩ | ⟨hzero, hy⟩⟩ := Float.beq_iff_ne_nan_and_eq.mp heq
    · exact hint
    · rw [← hint, toInt?_of_zero (.inl hzero), toInt?_of_zero (.inr hy)]
    · rw [← hint, toInt?_of_zero (.inr hzero), toInt?_of_zero (.inl hy)]
  · intro hint
    rcases toInt?_eq_some_iff.mp hint with hy | ⟨rfl, rfl⟩
    · exact (hx.beq_iff hy).mpr rfl
    · have hzeros : ((0 : Float) == -0) = true := by decide
      exact BEq.trans ((hx.beq_iff hasValue_zero).mpr rfl) hzeros

/-! ## 9. Doubles without parts -/

theorem toNat_unpackExponent (b : BitVec 64) :
    (@unpackExponent .binary64 b).toNat = b.toNat / 2 ^ 52 % 2 ^ 11 := by
  rw [unpackExponent, BitVec.toNat_cast, BitVec.extractLsb_toNat, Nat.shiftRight_eq_div_pow]
  rfl

/-- The greatest exponent is that of the infinities and of NaN. -/
theorem isFinite_eq_false_iff {x : Float} :
    x.isFinite = false ↔ @unpackExponent .binary64 x.toBits.toBitVec = -1#11 := by
  show (UnpackedFloat.unpack .binary64 x.toBits.toBitVec).isFinite = false ↔ _
  simp only [UnpackedFloat.unpack]
  by_cases hones : @unpackExponent .binary64 x.toBits.toBitVec = -1#11
  · rw [if_pos hones]
    refine ⟨fun _ => hones, fun _ => ?_⟩
    split <;> rfl
  · rw [if_neg hones]
    refine ⟨fun h => ?_, fun h => absurd h hones⟩
    split at h
    · split at h <;> cases h
    · cases h

/-- **The doubles without parts** are the infinities and NaN. -/
theorem ofFloat?_eq_none_iff {x : Float} : ofFloat? x = none ↔ x.isFinite = false := by
  have hexponent : x.toBits.toNat / Nat.pow 2 52 % Nat.pow 2 11 = 2047 ↔
      @unpackExponent .binary64 x.toBits.toBitVec = -1#11 := by
    rw [← BitVec.toNat_inj, toNat_unpackExponent]
    exact Iff.rfl
  rw [isFinite_eq_false_iff, ← hexponent]
  simp only [ofFloat?]
  split
  · next hones => exact ⟨fun _ => hones, fun _ => rfl⟩
  · next hones =>
    refine ⟨fun h => ?_, fun h => absurd h hones⟩
    split at h <;> cases h

end Stencil.Binary64

namespace Stencil.Number

open Binary64

variable {x : Float} {i : Int}

/-- **A double is kept as an integer** where it is one of less than 64 digits. -/
theorem ofFloat?_of_hasValue (h : HasValue x i) :
    ofFloat? x = some (if i.natAbs < 2 ^ 63 then .int (Int64.ofInt i) else .float x) := by
  have hwhole : wholeOf? x = if i.natAbs < 2 ^ 63 then some (Int64.ofInt i) else none := by
    rw [wholeOf?, h.toInt?]
    rfl
  rw [ofFloat?, if_pos h.isFinite, hwhole]
  by_cases hless : i.natAbs < 2 ^ 63
  · rw [if_pos hless, if_pos hless]
  · rw [if_neg hless, if_neg hless]

end Stencil.Number
