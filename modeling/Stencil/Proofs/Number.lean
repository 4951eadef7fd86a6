import Stencil.Number
import Stencil.Proofs.Key

/-!
# Integers as texts

An integer is written with its digits and, if it is negative, with a minus sign in front. This file
fixes what such a text is like: it is not empty, it has no blanks at its ends, and it is read as the
integer again (`Number.parse?_text_int`).
-/

namespace Stencil

/-! ## 1. Digits -/

namespace Decimal

theorem digitsOf_ne_nil (n : Nat) : digitsOf n ≠ [] :=
  Nat.toDigits_ne_nil

theorem isDigit_of_mem_digitsOf {n : Nat} {c : Char} (h : c ∈ digitsOf n) : c.isDigit = true :=
  Nat.isDigit_of_mem_toDigits (by decide) (by decide) h

/-- The characters that a digit is not. -/
theorem isDigit_iff {c : Char} : c.isDigit = true ↔ 48 ≤ c.toNat ∧ c.toNat ≤ 57 := by
  simp only [Char.isDigit, Bool.and_eq_true, decide_eq_true_eq, UInt32.le_iff_toNat_le]
  rfl

theorem not_isBlank_of_isDigit {c : Char} (h : c.isDigit = true) : ¬Text.isBlank c = true := by
  obtain ⟨hlow, hhigh⟩ := isDigit_iff.mp h
  simp only [Text.isBlank, Text.inRanges, Text.blankRanges, List.any_cons, List.any_nil,
    Bool.or_eq_true, Bool.and_eq_true, decide_eq_true_eq, Bool.false_eq_true, or_false]
  omega

theorem toLower_of_isDigit {c : Char} (h : c.isDigit = true) : c.toLower = c := by
  have hcapital : ¬(c.val ≥ 'A'.val ∧ c.val ≤ 'Z'.val) := by
    have hhigh : c.val.toNat ≤ 57 := (isDigit_iff.mp h).2
    have hA : 'A'.val.toNat = 65 := rfl
    simp only [ge_iff_le, UInt32.le_iff_toNat_le, hA]
    omega
  exact dif_neg hcapital

/-- Digits have no sign. -/
theorem takeSign_of_isDigit {cs : List Char} (h : ∀ c ∈ cs, c.isDigit = true) :
    takeSign cs = (false, cs) := by
  cases cs with
  | nil => rfl
  | cons c rest =>
    have hc := h c List.mem_cons_self
    have hminus : c ≠ '-' := by
      rintro rfl
      cases hc
    have hplus : c ≠ '+' := by
      rintro rfl
      cases hc
    exact takeSign.eq_3 (c :: rest) (fun _ heq => hminus (List.cons.inj heq).1)
      fun _ heq => hplus (List.cons.inj heq).1

/-- **A natural number is read from its digits.** -/
theorem natural?_digitsOf (n : Nat) : natural? (digitsOf n) = some n := by
  have hdigits : ∀ c ∈ digitsOf n, c.isDigit = true := fun _ => isDigit_of_mem_digitsOf
  have hread : digitsOf n ≠ [] ∧ (digitsOf n).all Char.isDigit = true :=
    ⟨digitsOf_ne_nil n, List.all_eq_true.mpr hdigits⟩
  simp only [natural?]
  split
  · next rest hplus =>
    have hsign : ('+' : Char).isDigit = true := hdigits '+' (hplus ▸ List.mem_cons_self)
    cases hsign
  · rw [if_pos hread, natOf_digitsOf]

/-! ## 2. Integers -/

/-- The characters of an integer: its digits, behind a minus sign if it is negative. -/
theorem toList_integerText (i : Int) : (integerText i).toList =
    if i < 0 then '-' :: digitsOf i.natAbs else digitsOf i.natAbs := by
  rw [integerText]
  split
  · simp [naturalText]
  · rw [naturalText, String.toList_ofList]

/-- **An integer is read from its text.** -/
theorem integer?_integerText (i : Int) : integer? (integerText i).toList = some i := by
  have hdigits : ∀ c ∈ digitsOf i.natAbs, c.isDigit = true := fun _ => isDigit_of_mem_digitsOf
  have hread : digitsOf i.natAbs ≠ [] ∧ (digitsOf i.natAbs).all Char.isDigit = true :=
    ⟨digitsOf_ne_nil _, List.all_eq_true.mpr hdigits⟩
  rw [toList_integerText]
  by_cases hi : i < 0
  · rw [if_pos hi, integer?, takeSign]
    simp only [hread, if_true, natOf_digitsOf, ne_eq, not_false_eq_true, and_self]
    rw [Option.some_inj]
    omega
  · rw [if_neg hi, integer?, takeSign_of_isDigit hdigits]
    simp only [hread, if_true, natOf_digitsOf, ne_eq, not_false_eq_true, and_self]
    simp only [Bool.false_eq_true, if_false, Option.some_inj]
    omega

theorem trimChars_integerText (i : Int) :
    Text.trimChars (integerText i).toList = (integerText i).toList := by
  have hfirst : ∀ c ∈ (integerText i).toList, ¬Text.isBlank c = true := by
    intro c hc
    rw [toList_integerText] at hc
    split at hc
    · rcases List.mem_cons.mp hc with rfl | hdigit
      · decide
      · exact not_isBlank_of_isDigit (isDigit_of_mem_digitsOf hdigit)
    · exact not_isBlank_of_isDigit (isDigit_of_mem_digitsOf hc)
  exact Text.trimChars_eq_self_iff.mpr fun h =>
    ⟨hfirst _ (List.head_mem h), hfirst _ (List.getLast_mem h)⟩

/-- The text of an integer holds a digit. -/
theorem exists_digit_integerText (i : Int) :
    ∃ c ∈ (integerText i).toList, c.isDigit = true := by
  obtain ⟨c, rest, hdigits⟩ := List.exists_cons_of_ne_nil (digitsOf_ne_nil i.natAbs)
  have hc : c ∈ digitsOf i.natAbs := hdigits ▸ List.mem_cons_self
  refine ⟨c, ?_, isDigit_of_mem_digitsOf hc⟩
  rw [toList_integerText]
  split
  · exact List.mem_cons_of_mem _ hc
  · exact hc

end Decimal

namespace Number

theorem toInt_mem_range (a : Int64) :
    Int64.minValue.toInt ≤ a.toInt ∧ a.toInt ≤ Int64.maxValue.toInt := by
  rw [Int64.toInt_minValue, Int64.toInt_maxValue]
  have hlow := a.le_toInt
  have hhigh := a.toInt_lt
  omega

theorem int64?_toInt (a : Int64) : int64? a.toInt = some a := by
  rw [int64?, if_pos (toInt_mem_range a), Int64.ofInt_toInt]

/-- **A 64-bit integer is read from its text.** -/
theorem parse?_text_int (a : Int64) : parse? (Number.int a).text = some (.int a) := by
  have hread : (Decimal.integer? (Text.trimChars (Number.int a).text.toList)).bind int64? =
      some a := by
    rw [text, Decimal.trimChars_integerText, Decimal.integer?_integerText, Option.bind_some,
      int64?_toInt]
  simp only [parse?, hread]

end Number

end Stencil
