import Mathlib.Data.List.Induction
import Stencil.Filter.Standard
import Stencil.Proofs.Number

/-!
# Numerals

This file fixes which texts are integers, said without the reader:

* the digits of a natural number, by place (`Decimal.Digits`), and the numerals of an integer, with
  a sign or without (`Decimal.Denotes`);
* that a text without the blanks around it is read as a 64-bit integer exactly if it is a numeral of
  one that fits (`Number.parse?_eq_int_iff`);
* that an integer survives being written, with blanks around it, and being read again, also by the
  filter that reads numbers (`Number.parse?_display_int`).
-/

namespace Stencil

/-! ## 1. Numerals -/

namespace Decimal

/-- These digits denote a natural number. The last of them counts ones, and the number of those
    before it counts tens. -/
inductive Digits : List Char → Nat → Prop where
  | one (d : Fin 10) : Digits [Nat.digitChar d] d
  | more {cs : List Char} {n : Nat} (h : Digits cs n) (d : Fin 10) :
      Digits (cs ++ [Nat.digitChar d]) (10 * n + d)

/-- These characters denote an integer: digits, behind a sign or without one. -/
inductive Denotes : List Char → Int → Prop where
  | unsigned {cs : List Char} {n : Nat} (h : Digits cs n) : Denotes cs n
  | plus {cs : List Char} {n : Nat} (h : Digits cs n) : Denotes ('+' :: cs) n
  | minus {cs : List Char} {n : Nat} (h : Digits cs n) : Denotes ('-' :: cs) (-n)

variable {cs : List Char} {n : Nat} {i : Int}

theorem natOf_digitChar (d : Fin 10) : natOf [Nat.digitChar d] = d := by
  decide +revert

/-- Every digit is one of ten. -/
theorem exists_digitChar_eq {c : Char} (h : c.isDigit = true) :
    ∃ d : Fin 10, Nat.digitChar d = c := by
  have hten : ∀ d : Fin 10, Nat.digitChar d = Char.ofNat (48 + d) := by decide
  obtain ⟨hlow, hhigh⟩ := isDigit_iff.mp h
  refine ⟨⟨c.toNat - 48, by omega⟩, ?_⟩
  rw [hten, Nat.add_sub_cancel' hlow, Char.ofNat_toNat]

theorem natOf_append_digitChar (cs : List Char) (d : Fin 10) :
    natOf (cs ++ [Nat.digitChar d]) = 10 * natOf cs + d := by
  have hone : 10 * 0 + ((Nat.digitChar d).toNat - '0'.toNat) = d := natOf_digitChar d
  rw [natOf, Nat.ofDigitChars_append, Nat.ofDigitChars_cons, Nat.ofDigitChars_nil, natOf]
  omega

/-- **A run of digits denotes its value**, unless it is empty. -/
theorem digits_iff : Digits cs n ↔ (cs ≠ [] ∧ cs.all Char.isDigit = true) ∧ natOf cs = n := by
  constructor
  · intro h
    induction h with
    | one d => exact ⟨⟨List.cons_ne_nil _ _, by simp⟩, natOf_digitChar d⟩
    | more h d ih =>
      obtain ⟨⟨-, hall⟩, hvalue⟩ := ih
      refine ⟨⟨List.append_ne_nil_of_right_ne_nil _ (List.cons_ne_nil _ _), ?_⟩, ?_⟩
      · simp [List.all_append, hall]
      · rw [natOf_append_digitChar, hvalue]
  · intro h
    obtain ⟨⟨hne, hall⟩, rfl⟩ := h
    -- digits are taken off the end, where `Digits` puts them on
    induction cs using List.reverseRecOn with
    | nil => exact absurd rfl hne
    | append_singleton front c ih =>
      rw [List.all_append, Bool.and_eq_true, List.all_cons, List.all_nil, Bool.and_true] at hall
      obtain ⟨d, rfl⟩ := exists_digitChar_eq hall.2
      cases front with
      | nil =>
        rw [List.nil_append, natOf_digitChar]
        exact .one d
      | cons first rest =>
        rw [natOf_append_digitChar]
        exact .more (ih (List.cons_ne_nil first rest) hall.1) d

/-! ## 2. Reading integers -/

theorem integer?_plus (digits : List Char) : integer? ('+' :: digits) =
    if digits ≠ [] ∧ digits.all Char.isDigit then some (natOf digits : Int) else none := rfl

theorem integer?_minus (digits : List Char) : integer? ('-' :: digits) =
    if digits ≠ [] ∧ digits.all Char.isDigit then some (-(natOf digits : Int)) else none := rfl

theorem integer?_of_takeSign (h : takeSign cs = (false, cs)) : integer? cs =
    if cs ≠ [] ∧ cs.all Char.isDigit then some (natOf cs : Int) else none := by
  rw [integer?, h]
  rfl

/-- A text begins with a sign, or has none to take off. -/
theorem takeSign_cases (cs : List Char) : (∃ digits, cs = '-' :: digits) ∨
    (∃ digits, cs = '+' :: digits) ∨ takeSign cs = (false, cs) := by
  unfold takeSign
  split
  · exact .inl ⟨_, rfl⟩
  · exact .inr (.inl ⟨_, rfl⟩)
  · exact .inr (.inr rfl)

/-- **What is read as an integer** is a numeral of it. -/
theorem integer?_eq_some_iff : integer? cs = some i ↔ Denotes cs i := by
  constructor
  · intro h
    rcases takeSign_cases cs with ⟨digits, rfl⟩ | ⟨digits, rfl⟩ | hnone
    · rw [integer?_minus, Option.ite_none_right_eq_some, Option.some_inj] at h
      obtain ⟨hread, rfl⟩ := h
      exact .minus (digits_iff.mpr ⟨hread, rfl⟩)
    · rw [integer?_plus, Option.ite_none_right_eq_some, Option.some_inj] at h
      obtain ⟨hread, rfl⟩ := h
      exact .plus (digits_iff.mpr ⟨hread, rfl⟩)
    · rw [integer?_of_takeSign hnone, Option.ite_none_right_eq_some, Option.some_inj] at h
      obtain ⟨hread, rfl⟩ := h
      exact .unsigned (digits_iff.mpr ⟨hread, rfl⟩)
  · intro h
    cases h with
    | unsigned h =>
      obtain ⟨hread, rfl⟩ := digits_iff.mp h
      rw [integer?_of_takeSign (takeSign_of_isDigit (List.all_eq_true.mp hread.2)), if_pos hread]
    | plus h =>
      obtain ⟨hread, rfl⟩ := digits_iff.mp h
      rw [integer?_plus, if_pos hread]
    | minus h =>
      obtain ⟨hread, rfl⟩ := digits_iff.mp h
      rw [integer?_minus, if_pos hread]

end Decimal

/-! ## 3. Integers as texts -/

namespace Number

variable {s : String} {a : Int64} {i : Int}

theorem int64?_eq_some_iff : int64? i = some a ↔ a.toInt = i := by
  constructor
  · exact toInt_of_int64?
  · intro h
    rw [← h, int64?_toInt]

/-- **What is read as a 64-bit integer**: a numeral of it, whatever blanks are around. -/
theorem parse?_eq_int_iff :
    parse? s = some (.int a) ↔ Decimal.Denotes (Text.trim s).toList a.toInt := by
  have hint : parse? s = some (.int a) ↔
      (Decimal.integer? (Text.trimChars s.toList)).bind int64? = some a := by
    unfold parse?
    simp only
    split
    · next b hb => rw [hb, Option.some_inj, Option.some_inj, Number.int.injEq]
    · next hnone =>
      rw [hnone]
      refine iff_of_false (fun h => ?_) nofun
      split at h
      · split at h <;> cases h
      · cases h
  rw [hint, Text.toList_trim, Option.bind_eq_some_iff]
  constructor
  · intro h
    obtain ⟨i, hi, ha⟩ := h
    rw [int64?_eq_some_iff.mp ha]
    exact Decimal.integer?_eq_some_iff.mp hi
  · intro h
    exact ⟨a.toInt, Decimal.integer?_eq_some_iff.mpr h, int64?_toInt a⟩

/-- The text of an integer is one of its numerals. -/
theorem denotes_display (a : Int64) :
    Decimal.Denotes (Text.trim (Value.ofInt64 a).display).toList a.toInt := by
  rw [Text.toList_trim]
  show Decimal.Denotes (Text.trimChars (Decimal.integerText a.toInt).toList) a.toInt
  rw [Decimal.trimChars_integerText, ← Decimal.integer?_eq_some_iff]
  exact Decimal.integer?_integerText a.toInt

end Number

/-- A text of blanks alone. -/
def Text.Blank (s : String) : Prop :=
  s.toList.all isBlank = true

instance : DecidablePred Text.Blank :=
  fun s => inferInstanceAs (Decidable (s.toList.all Text.isBlank = true))

theorem Text.trim_between {before after : String} (hbefore : Blank before) (hafter : Blank after)
    (s : String) : trim (before ++ s ++ after) = trim s := by
  rw [← String.toList_inj, toList_trim, toList_trim, String.toList_append, String.toList_append,
    trimChars_append_blanks (List.all_eq_true.mp hafter),
    trimChars_blanks_append (List.all_eq_true.mp hbefore)]

/-- The filter that reads numbers gives the number that a text is read as. -/
theorem Registry.apply_number {s : String} {n : Number} (h : Number.parse? s = some n)
    (args : List String) (scope : Scope) :
    standard.apply ⟨"number", args⟩ (.text s) scope = .ok (.number n) := by
  have hfind : standard.find? "number" = some Filter.Number.toNumber := rfl
  have hnumber : Filter.number? "number" (.text s) = .ok (some n) := by rw [Filter.number?, h]
  rw [apply, hfind]
  simp only [Filter.Number.toNumber, hnumber]
  rfl

/-- **Integers and texts.** A text is read as an integer exactly if, without the blanks around it,
    it is a sign or none and then digits, and the integer that these denote fits 64 bits. So an
    integer that is written, with any blanks around it, is read as itself, by the filter as well. -/
theorem Number.parse?_display_int :
    (∀ (s : String) (i : Int), (∃ a : Int64, a.toInt = i ∧ parse? s = some (.int a)) ↔
      Decimal.Denotes (Text.trim s).toList i ∧
        Int64.minValue.toInt ≤ i ∧ i ≤ Int64.maxValue.toInt) ∧
    ∀ (a : Int64) (before after : String), Text.Blank before → Text.Blank after →
      parse? (before ++ (Value.ofInt64 a).display ++ after) = some (.int a) ∧
      ∀ (args : List String) (scope : Scope), Registry.standard.apply ⟨"number", args⟩
        (.text (before ++ (Value.ofInt64 a).display ++ after)) scope = .ok (.ofInt64 a) := by
  constructor
  · intro s i
    constructor
    · intro h
      obtain ⟨a, rfl, hparse⟩ := h
      exact ⟨parse?_eq_int_iff.mp hparse, toInt_mem_range a⟩
    · intro h
      obtain ⟨hdenotes, hrange⟩ := h
      have hint : (Int64.ofInt i).toInt = i := toInt_of_int64? (if_pos hrange)
      refine ⟨.ofInt i, hint, parse?_eq_int_iff.mpr ?_⟩
      rwa [hint]
  · intro a before after hbefore hafter
    have hparse : parse? (before ++ (Value.ofInt64 a).display ++ after) = some (.int a) := by
      rw [parse?_eq_int_iff, Text.trim_between hbefore hafter]
      exact denotes_display a
    exact ⟨hparse, Registry.apply_number hparse⟩

/-- The least integer between a tabulator and an ideographic space, and a numeral of the integer
    above the greatest one. -/
theorem Number.parse?_display_int_least :
    Text.Blank "\t" ∧ Text.Blank "\u3000" ∧
    parse? "\t-9223372036854775808\u3000" = some (.int (-9223372036854775808)) ∧
    Registry.standard.apply ⟨"number", []⟩ (.text "\t-9223372036854775808\u3000")
      ⟨.empty, .empty⟩ = .ok (.ofInt64 (-9223372036854775808)) ∧
    ¬∃ a : Int64, a.toInt = 9223372036854775808 ∧
      parse? "+09223372036854775808" = some (.int a) := by
  obtain ⟨hread, hwritten⟩ := parse?_display_int
  have hblank : Text.Blank "\t" ∧ Text.Blank "\u3000" := by decide
  obtain ⟨hparse, hfilter⟩ := hwritten (-9223372036854775808) "\t" "\u3000" hblank.1 hblank.2
  have htext : "\t" ++ (Value.ofInt64 (-9223372036854775808)).display ++ "\u3000" =
      "\t-9223372036854775808\u3000" := by decide +kernel
  rw [htext] at hparse hfilter
  refine ⟨hblank.1, hblank.2, hparse, hfilter [] ⟨.empty, .empty⟩, fun h => ?_⟩
  exact absurd ((hread _ _).mp h).2 (by decide)

end Stencil
