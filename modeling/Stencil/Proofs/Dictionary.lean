import Mathlib.Data.List.Basic
import Mathlib.Data.List.Induction
import Stencil.Dictionary

/-!
# What pairs come to, inserted one after the other

A dictionary is made of a list of pairs in which a name may occur again and again. This file fixes
what is left of the list (`Dictionary.Merged`): each name once, where it first occurred, with what
it last stood for. That holds of every list (`Dictionary.merged_ofList`), by induction on its last
pair; and it leaves no choice, so a dictionary can be read off its pairs
(`Dictionary.ofList_eq_survivors`).
-/

namespace Stencil.Dictionary

variable {κ α : Type} [DecidableEq κ] {fields pairs : List (κ × α)} {key : κ} {a : α}

/-- Where names are distinct, looking up finds every pair. -/
theorem get?_eq_some_iff (h : (fields.map Prod.fst).Nodup) :
    get? fields key = some a ↔ (key, a) ∈ fields := by
  refine ⟨mem_of_get?, fun hmem => ?_⟩
  induction fields with
  | nil => cases hmem
  | cons first rest ih =>
    obtain ⟨k, b⟩ := first
    obtain ⟨hfresh, hrest⟩ := List.nodup_cons.mp h
    rw [get?_cons]
    rcases List.mem_cons.mp hmem with heq | htail
    · obtain ⟨rfl, rfl⟩ := Prod.mk.inj heq
      exact if_pos rfl
    · have hne : k ≠ key := by
        rintro rfl
        have hname := List.mem_map_of_mem (f := Prod.fst) htail
        exact hfresh hname
      rw [if_neg hne]
      exact ih hrest htail

/-- An insertion leaves no other pair of its name. -/
theorem mem_insert_iff (h : (fields.map Prod.fst).Nodup) {pair : κ × α} :
    pair ∈ insert fields key a ↔ pair = (key, a) ∨ pair ∈ fields ∧ pair.1 ≠ key := by
  obtain ⟨k, b⟩ := pair
  rw [← get?_eq_some_iff (keys_insert_nodup h key a), get?_insert, ← get?_eq_some_iff h]
  by_cases hk : key = k
  · simp [hk, eq_comm]
  · simp [hk, Ne.symm hk]

/-- A dictionary is the dictionary of its pairs. -/
theorem ofList_ofList (pairs : List (κ × α)) : ofList (ofList pairs) = ofList pairs := by
  have hnil : (([] : List (κ × α)).map Prod.fst).Nodup := List.nodup_nil
  exact ofList_of_nodup (keys_extend_nodup hnil pairs)

theorem map_ofList {β : Type} (f : α → β) (pairs : List (κ × α)) :
    (ofList pairs).map (fun pair => (pair.1, f pair.2)) =
      ofList (pairs.map fun pair => (pair.1, f pair.2)) :=
  map_extend f [] pairs

/-- **What is left of a list of pairs**: every name once, in the order of first occurrences, with
    what stands at its last occurrence. -/
structure Merged (pairs fields : List (κ × α)) : Prop where
  nodup : (fields.map Prod.fst).Nodup
  names : fields.map Prod.fst = (pairs.map Prod.fst).eraseDups
  last : ∀ pair ∈ fields, ∃ before behind, pairs = before ++ pair :: behind ∧
    pair.1 ∉ behind.map Prod.fst

/-- One pair more: its name stands where it already stood, or at the end. -/
theorem Merged.insert (h : Merged pairs fields) (key : κ) (a : α) :
    Merged (pairs ++ [(key, a)]) (insert fields key a) where
  nodup := keys_insert_nodup h.nodup key a
  names := by
    rw [keys_insert, h.names, List.map_append, List.eraseDups_append]
    simp only [List.mem_eraseDups]
    by_cases hmem : key ∈ pairs.map Prod.fst
    · simp [hmem, List.removeAll]
    · simp [hmem, List.removeAll, List.eraseDups_cons]
  last := by
    intro pair hpair
    rcases (mem_insert_iff h.nodup).mp hpair with rfl | ⟨hold, hne⟩
    · exact ⟨pairs, [], rfl, by simp⟩
    · obtain ⟨before, behind, rfl, hlast⟩ := h.last pair hold
      refine ⟨before, behind ++ [(key, a)], by simp, ?_⟩
      rw [List.map_append, List.mem_append, not_or]
      exact ⟨hlast, by simpa using hne⟩

/-- **Pair after pair**, every name keeps its first place and its last meaning. -/
theorem merged_ofList (pairs : List (κ × α)) : Merged pairs (ofList pairs) := by
  induction pairs using List.reverseRecOn with
  | nil => exact ⟨List.nodup_nil, rfl, by simp [ofList, extend]⟩
  | append_singleton before pair ih =>
    rw [ofList, extend_append]
    exact ih.insert pair.1 pair.2

/-- For every name, in the order of first occurrences, the last of its pairs. -/
def survivors (pairs : List (κ × α)) : List (κ × α) :=
  (pairs.map Prod.fst).eraseDups.filterMap fun name =>
    pairs.reverse.find? fun pair => pair.1 = name

/-- Only one list is left of a list of pairs. -/
theorem Merged.eq_survivors (h : Merged pairs fields) : fields = survivors pairs := by
  have hlast : ∀ pair ∈ fields,
      pairs.reverse.find? (fun other => other.1 = pair.1) = some pair := by
    intro pair hpair
    obtain ⟨before, behind, rfl, hfresh⟩ := h.last pair hpair
    refine List.find?_eq_some_iff_append.mpr ⟨by simp, behind.reverse, before.reverse, by simp, ?_⟩
    intro other hother
    have hname := List.mem_map_of_mem (f := Prod.fst) (List.mem_reverse.mp hother)
    simpa using fun heq : other.1 = pair.1 => hfresh (heq ▸ hname)
  rw [survivors, ← h.names, List.filterMap_map]
  exact ((List.filterMap_congr hlast).trans List.filterMap_some).symm

/-- **A dictionary, read off its pairs**, with no insertion. -/
theorem ofList_eq_survivors (pairs : List (κ × α)) : ofList pairs = survivors pairs :=
  (merged_ofList pairs).eq_survivors

end Stencil.Dictionary
