/-!
# Cutting texts and exchanging parts of them

This file fixes

* `splitFirst`, which cuts once, at the first occurrence of a character, and `splits`, which lists
  the cuts at every single occurrence;
* `replace`, which exchanges every occurrence of one run of characters, from left to right, for
  another.
-/

namespace Stencil.Text

/-! ## 1. Cutting -/

/-- What stands before and after the first occurrence of a character. -/
def splitFirst (sep : Char) : List Char → Option (List Char × List Char)
  | [] => none
  | c :: rest =>
    if c = sep then some ([], rest)
    else (splitFirst sep rest).map fun (before, after) => (c :: before, after)

/-- What stands before and after each occurrence of a character, the first occurrence first. -/
def splits (sep : Char) : List Char → List (List Char × List Char)
  | [] => []
  | c :: rest =>
    let later := (splits sep rest).map fun (before, after) => (c :: before, after)
    if c = sep then ([], rest) :: later else later

/-- **A cut loses the separator alone**: the parts with it between them are the text, and the part
    before it is free of it. -/
theorem eq_append_of_splitFirst {sep : Char} {cs before after : List Char}
    (h : splitFirst sep cs = some (before, after)) :
    cs = before ++ sep :: after ∧ sep ∉ before := by
  induction cs generalizing before with
  | nil => simp [splitFirst] at h
  | cons c rest ih =>
    by_cases hc : c = sep
    · simp only [splitFirst, hc, if_true, Option.some.injEq, Prod.mk.injEq] at h
      obtain ⟨rfl, rfl⟩ := h
      simp [hc]
    · simp only [splitFirst, hc, if_false, Option.map_eq_some_iff, Prod.mk.injEq] at h
      obtain ⟨⟨first, last⟩, hrest, rfl, rfl⟩ := h
      have hcut := ih hrest
      exact ⟨by rw [hcut.1, List.cons_append], by simp [hcut.2, Ne.symm hc]⟩

/-- **Only a text without the separator has no cut.** -/
theorem splitFirst_eq_none_iff {sep : Char} {cs : List Char} :
    splitFirst sep cs = none ↔ sep ∉ cs := by
  induction cs with
  | nil => simp [splitFirst]
  | cons c rest ih =>
    by_cases hc : c = sep
    · simp [splitFirst, hc]
    · simp [splitFirst, hc, ih, Ne.symm hc]

/-- **The cuts of a text**: each loses one separator, and every separator is lost by one. -/
theorem mem_splits_iff {sep : Char} {cs before after : List Char} :
    (before, after) ∈ splits sep cs ↔ cs = before ++ sep :: after := by
  induction cs generalizing before with
  | nil => simp [splits]
  | cons c rest ih =>
    cases before with
    | nil =>
      by_cases hc : c = sep
      · simp [splits, hc, eq_comm]
      · simp [splits, hc]
    | cons first more => by_cases hc : c = sep <;> simp [splits, hc, ih] <;> grind

/-- Later cuts have more before them. -/
theorem splits_pairwise (sep : Char) (cs : List Char) :
    (splits sep cs).Pairwise fun p q => p.1.length < q.1.length := by
  induction cs with
  | nil => exact .nil
  | cons c rest ih =>
    have hlater : ((splits sep rest).map fun p => (c :: p.1, p.2)).Pairwise
        fun p q => p.1.length < q.1.length := by
      rw [List.pairwise_map]
      exact ih.imp Nat.succ_lt_succ
    unfold splits
    split
    · refine .cons (fun q hq => ?_) hlater
      obtain ⟨p, -, rfl⟩ := List.mem_map.mp hq
      exact Nat.succ_pos _
    · exact hlater

/-! ## 2. Exchanging -/

/-- Exchanges the occurrences of `old`, after leaving out the first `skip` characters: those that
    belong to an occurrence already exchanged. -/
def replaceChars (old new : List Char) : Nat → List Char → List Char
  | _, [] => []
  | skip + 1, _ :: rest => replaceChars old new skip rest
  | 0, c :: rest =>
    if old.isPrefixOf (c :: rest) then new ++ replaceChars old new (old.length - 1) rest
    else c :: replaceChars old new 0 rest

/-- A text with every occurrence of a non-empty text exchanged for another. -/
def replace (old new s : String) : String :=
  String.ofList (replaceChars old.toList new.toList 0 s.toList)

end Stencil.Text
