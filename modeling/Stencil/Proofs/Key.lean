import Mathlib.Data.List.DropRight
import Stencil.Key

/-!
# Trimmed texts and keys

This file fixes which texts have no blanks at their ends, how they are put together, that blanks
around a text make no difference once it is trimmed, which keys can be read at all (`Key.Wf`), and
which key is read from a namespace and a name without blanks at their ends (`Key.parse?_append`).
-/

namespace Stencil

/-! ## 1. Trimmed texts -/

namespace Text

theorem trimChars_eq_rdropWhile (cs : List Char) :
    trimChars cs = (cs.dropWhile isBlank).rdropWhile isBlank := rfl

/-- What is left is a stretch of the text. -/
theorem trimChars_isInfix (cs : List Char) : trimChars cs <:+: cs := by
  rw [trimChars_eq_rdropWhile]
  exact (List.rdropWhile_prefix isBlank _).isInfix.trans (List.dropWhile_suffix isBlank).isInfix

/-- **A text is trimmed** exactly if neither its first nor its last character is blank. -/
theorem trimChars_eq_self_iff {cs : List Char} :
    trimChars cs = cs ↔ ∀ h : cs ≠ [], ¬isBlank (cs.head h) ∧ ¬isBlank (cs.getLast h) := by
  rw [trimChars_eq_rdropWhile]
  cases cs with
  | nil => simp
  | cons c rest =>
    simp only [ne_eq, reduceCtorEq, not_false_eq_true, forall_true_left, List.head_cons]
    by_cases hc : isBlank c = true
    · have hlength : ((c :: rest).dropWhile isBlank).length < (c :: rest).length := by
        rw [List.dropWhile_cons_of_pos hc]
        exact Nat.lt_succ_of_le (List.dropWhile_suffix isBlank).length_le
      have hfewer := (List.rdropWhile_prefix isBlank ((c :: rest).dropWhile isBlank)).length_le
      refine iff_of_false (fun heq => ?_) (fun h => h.1 hc)
      rw [heq] at hfewer
      omega
    · rw [List.dropWhile_cons_of_neg hc, List.rdropWhile_eq_self_iff]
      exact ⟨fun h => ⟨hc, h (List.cons_ne_nil c rest)⟩, fun h _ => h.2⟩

/-- Trimming once is enough. -/
theorem trimChars_trimChars (cs : List Char) : trimChars (trimChars cs) = trimChars cs := by
  refine trimChars_eq_self_iff.mpr fun h => ⟨?_, ?_⟩
  · have hstart : trimChars cs <+: cs.dropWhile isBlank := List.rdropWhile_prefix isBlank _
    rw [hstart.head h]
    have hhead := List.head?_dropWhile_not isBlank cs
    rw [List.head?_eq_some_head (hstart.ne_nil h)] at hhead
    simpa using hhead
  · exact List.rdropWhile_last_not isBlank _ h

section Trim

variable {blanks cs : List Char}

theorem trimChars_blanks_append (h : ∀ c ∈ blanks, isBlank c = true) :
    trimChars (blanks ++ cs) = trimChars cs := by
  rw [trimChars, List.dropWhile_append_of_pos h, trimChars]

theorem trimChars_append_blanks (h : ∀ c ∈ blanks, isBlank c = true) :
    trimChars (cs ++ blanks) = trimChars cs := by
  have hback : ∀ c ∈ blanks.reverse, isBlank c = true := fun c hc => h c (List.mem_reverse.mp hc)
  rw [trimChars, trimChars, List.dropWhile_append]
  split
  · next hempty =>
    rw [List.dropWhile_eq_nil_iff.mpr h, List.isEmpty_iff.mp hempty]
  · rw [List.reverse_append, List.dropWhile_append_of_pos hback]

/-- A text is what is left of it between two stretches of blanks. -/
theorem exists_blanks_append (cs : List Char) : ∃ front back, cs = front ++ (trimChars cs ++ back) ∧
    (∀ c ∈ front, isBlank c = true) ∧ ∀ c ∈ back, isBlank c = true := by
  refine ⟨cs.takeWhile isBlank, (cs.dropWhile isBlank).rtakeWhile isBlank, ?_, ?_, ?_⟩
  · rw [trimChars_eq_rdropWhile, List.rdropWhile_append_rtakeWhile, List.takeWhile_append_dropWhile]
  · exact fun c hc => List.mem_takeWhile_imp hc
  · exact fun c hc => List.mem_rtakeWhile_imp hc

end Trim

/-- Two trimmed texts with a character between them that is not blank. -/
theorem trimChars_append_cons {before after : List Char} {sep : Char}
    (hbefore : trimChars before = before) (hafter : trimChars after = after)
    (hsep : isBlank sep = false) : trimChars (before ++ sep :: after) = before ++ sep :: after := by
  refine trimChars_eq_self_iff.mpr fun h => ⟨?_, ?_⟩
  · cases before with
    | nil => simp [hsep]
    | cons c rest => exact (trimChars_eq_self_iff.mp hbefore (List.cons_ne_nil c rest)).1
  · rw [List.getLast_append_of_ne_nil _ (List.cons_ne_nil sep after)]
    cases after with
    | nil => simp [hsep]
    | cons c rest => exact (trimChars_eq_self_iff.mp hafter (List.cons_ne_nil c rest)).2

/-- Trimmed parts with such a character between any two. -/
theorem trimChars_intercalate {sep : Char} (hsep : isBlank sep = false) {parts : List (List Char)}
    (h : ∀ part ∈ parts, trimChars part = part) :
    trimChars ([sep].intercalate parts) = [sep].intercalate parts := by
  induction parts with
  | nil => rfl
  | cons first rest ih =>
    obtain ⟨hfirst, hrest⟩ := List.forall_mem_cons.mp h
    cases rest with
    | nil => rwa [List.intercalate_singleton]
    | cons second more =>
      rw [List.intercalate_cons_cons, List.append_assoc, List.singleton_append]
      exact trimChars_append_cons hfirst (ih hrest) hsep

theorem trim_eq_self_iff {s : String} : trim s = s ↔ trimChars s.toList = s.toList := by
  rw [← String.toList_inj, toList_trim]

/-! ## 2. Keys -/

theorem toList_append_colon (s t : String) :
    (s ++ ":" ++ t).toList = s.toList ++ ':' :: t.toList := by
  rw [String.toList_append, String.toList_append, List.append_assoc]
  rfl

theorem splitFirst_append {sep : Char} {before : List Char} (h : sep ∉ before)
    (after : List Char) : splitFirst sep (before ++ sep :: after) = some (before, after) := by
  induction before with
  | nil => simp [splitFirst]
  | cons c rest ih =>
    obtain ⟨hc, hrest⟩ := not_or.mp (mt List.mem_cons.mpr h)
    rw [List.cons_append, splitFirst, if_neg (Ne.symm hc), ih hrest]
    rfl

end Text

/-- A key whose namespace ends at the first colon of its text, and that has no blanks to lose. -/
structure Key.Wf (k : Key) : Prop where
  space_ne : k.space ≠ ""
  name_ne : k.name ≠ ""
  space_trimmed : Text.trim k.space = k.space
  name_trimmed : Text.trim k.name = k.name
  uncut : ':' ∉ k.space.toList

/-- **What is read as a key is well formed.** -/
theorem Key.wf_of_parse? {s : String} {k : Key} (h : parse? s = some k) :
    k.Wf := by
  rw [parse?, ofChars?] at h
  split at h
  · cases h
  · next space name hsplit =>
    obtain ⟨hne, heq⟩ := Option.ite_none_left_eq_some.mp h
    obtain ⟨hspace, hname⟩ := not_or.mp hne
    obtain rfl := Option.some.inj heq
    refine ⟨?_, ?_, ?_, ?_, ?_⟩
    · rwa [ne_eq, String.ofList_eq_empty_iff]
    · rwa [ne_eq, String.ofList_eq_empty_iff]
    · rw [Text.trim_eq_self_iff, String.toList_ofList, Text.trimChars_trimChars]
    · rw [Text.trim_eq_self_iff, String.toList_ofList, Text.trimChars_trimChars]
    · rw [String.toList_ofList]
      exact fun hcolon => (Text.eq_append_of_splitFirst hsplit).2
        ((Text.trimChars_isInfix space).subset hcolon)

/-- The key of a text with a colon. -/
theorem Key.parse?_append_colon {before : String} (h : ':' ∉ before.toList) (after : String) :
    parse? (before ++ ":" ++ after) = if Text.trim before = "" ∨ Text.trim after = "" then none
      else some ⟨Text.trim before, Text.trim after⟩ := by
  rw [parse?, Text.toList_append_colon, ofChars?, Text.splitFirst_append h]
  simp only [← Text.toList_trim, String.toList_eq_nil_iff, String.ofList_toList]

/-- **The key of a namespace and a name**, both without blanks at their ends. -/
theorem Key.parse?_append {space name : String} (hcolon : ':' ∉ space.toList)
    (hspace : Text.trim space = space) (hname : Text.trim name = name) :
    Key.parse? (space ++ ":" ++ name) =
      if space = "" ∨ name = "" then none else some ⟨space, name⟩ := by
  rw [Key.parse?_append_colon hcolon, hspace, hname]

end Stencil
