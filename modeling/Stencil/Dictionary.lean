/-!
# Dictionaries that keep the order of insertion

A dictionary is a list of pairs, a name with what it stands for. This file fixes what is done
with one:

* `Dictionary.get?` finds the pair of a name, the first one if a list has several;
* `Dictionary.insert` puts a pair in the place the name already has, and at the end otherwise;
* `Dictionary.extend` and `Dictionary.ofList` insert pair after pair, so that every name stands
  where it was first written and carries what was last written.

Lists that come out of these operations have distinct names (`keys_insert_nodup`), and a list that
has distinct names comes out of them as it is (`extend_of_nodup`). Mapping values, handler layers,
filter families and context frames are all of this kind.
-/

namespace Stencil.Dictionary

variable {κ α : Type} [DecidableEq κ]

/-! ## 1. Looking up -/

/-- What a name stands for. -/
def get? : List (κ × α) → κ → Option α
  | [], _ => none
  | (k, a) :: rest, key => if k = key then some a else get? rest key

@[simp] theorem get?_nil (key : κ) : get? ([] : List (κ × α)) key = none := rfl

theorem get?_cons (k : κ) (a : α) (rest : List (κ × α)) (key : κ) :
    get? ((k, a) :: rest) key = if k = key then some a else get? rest key := rfl

/-- **What can be looked up**: the names that stand in the list. -/
theorem get?_isSome_iff {fields : List (κ × α)} {key : κ} :
    (get? fields key).isSome ↔ key ∈ fields.map Prod.fst := by
  induction fields with
  | nil => simp
  | cons pair rest ih =>
    obtain ⟨k, a⟩ := pair
    by_cases hk : k = key
    · simp [get?_cons, hk]
    · simp [get?_cons, hk, Ne.symm hk, ih]

theorem get?_eq_none_iff {fields : List (κ × α)} {key : κ} :
    get? fields key = none ↔ key ∉ fields.map Prod.fst := by
  rw [← get?_isSome_iff, Option.not_isSome_iff_eq_none]

theorem mem_of_get? {fields : List (κ × α)} {key : κ} {a : α} (h : get? fields key = some a) :
    (key, a) ∈ fields := by
  induction fields with
  | nil => cases h
  | cons pair rest ih =>
    obtain ⟨k, b⟩ := pair
    rw [get?_cons] at h
    split at h
    · next hk =>
      obtain rfl := Option.some.inj h
      exact hk ▸ List.mem_cons_self
    · exact List.mem_cons_of_mem _ (ih h)

/-! ## 2. Inserting -/

/-- The dictionary in which a name stands for a new thing; the name keeps its place. -/
def insert : List (κ × α) → κ → α → List (κ × α)
  | [], key, a => [(key, a)]
  | (k, b) :: rest, key, a => if k = key then (k, a) :: rest else (k, b) :: insert rest key a

/-- All pairs of a second list, inserted one after the other. -/
def extend (fields more : List (κ × α)) : List (κ × α) :=
  more.foldl (fun acc pair => insert acc pair.1 pair.2) fields

/-- The dictionary of a list of pairs. -/
def ofList (pairs : List (κ × α)) : List (κ × α) :=
  extend [] pairs

/-- **Reading after writing**: the written name has the new value, every other its old one. -/
theorem get?_insert (fields : List (κ × α)) (key other : κ) (a : α) :
    get? (insert fields key a) other = if key = other then some a else get? fields other := by
  induction fields with
  | nil => simp [insert, get?_cons]
  | cons pair rest ih =>
    obtain ⟨k, b⟩ := pair
    by_cases hk : k = key
    · subst hk
      by_cases ho : k = other <;> simp [insert, get?_cons, ho]
    · by_cases ho : k = other
      · subst ho
        have : ¬ key = k := fun h => hk h.symm
        simp [insert, get?_cons, hk, this]
      · simp [insert, get?_cons, hk, ho, ih]

/-- The names after an insertion: those of before, with a new one at the end. -/
theorem keys_insert (fields : List (κ × α)) (key : κ) (a : α) :
    (insert fields key a).map Prod.fst =
      if key ∈ fields.map Prod.fst then fields.map Prod.fst else fields.map Prod.fst ++ [key] := by
  induction fields with
  | nil => simp [insert]
  | cons pair rest ih =>
    obtain ⟨k, b⟩ := pair
    by_cases hk : k = key
    · simp [insert, hk]
    · have hk' : ¬ key = k := fun h => hk h.symm
      by_cases hm : key ∈ rest.map Prod.fst <;> simp_all [insert]

theorem keys_insert_nodup {fields : List (κ × α)} (h : (fields.map Prod.fst).Nodup) (key : κ)
    (a : α) : ((insert fields key a).map Prod.fst).Nodup := by
  rw [keys_insert]
  split
  · exact h
  · rename_i hm
    rw [List.nodup_append]
    exact ⟨h, by simp, fun x hx y hy => by simp at hy; rintro rfl; exact hm (hy ▸ hx)⟩

/-- What an insertion leaves in a dictionary. -/
theorem mem_of_mem_insert {fields : List (κ × α)} {key : κ} {a : α} {pair : κ × α}
    (h : pair ∈ insert fields key a) : pair ∈ fields ∨ pair = (key, a) := by
  induction fields with
  | nil => exact .inr (List.mem_singleton.mp h)
  | cons first rest ih =>
    obtain ⟨k, b⟩ := first
    by_cases hk : k = key
    · rw [insert, if_pos hk] at h
      rcases List.mem_cons.mp h with rfl | hrest
      · exact .inr (by rw [hk])
      · exact .inl (List.mem_cons_of_mem _ hrest)
    · rw [insert, if_neg hk] at h
      rcases List.mem_cons.mp h with rfl | hrest
      · exact .inl List.mem_cons_self
      · exact (ih hrest).imp (List.mem_cons_of_mem _) id

/-- A new name goes to the end. -/
theorem insert_of_not_mem {fields : List (κ × α)} {key : κ} (h : key ∉ fields.map Prod.fst)
    (a : α) : insert fields key a = fields ++ [(key, a)] := by
  induction fields with
  | nil => rfl
  | cons first rest ih =>
    obtain ⟨k, b⟩ := first
    rw [List.map_cons, List.mem_cons, not_or] at h
    rw [insert, if_neg (Ne.symm h.1), ih h.2, List.cons_append]

/-- What names stand for can be exchanged before or after an insertion. -/
theorem map_insert {β : Type} (f : α → β) (fields : List (κ × α)) (key : κ) (a : α) :
    (insert fields key a).map (fun pair => (pair.1, f pair.2)) =
      insert (fields.map fun pair => (pair.1, f pair.2)) key (f a) := by
  induction fields with
  | nil => rfl
  | cons first rest ih =>
    obtain ⟨k, b⟩ := first
    rw [List.map_cons, insert, insert]
    by_cases hk : k = key
    · rw [if_pos hk, if_pos hk]
      rfl
    · rw [if_neg hk, if_neg hk, List.map_cons, ih]

/-! ## 3. Inserting pair after pair -/

theorem extend_append (fields more others : List (κ × α)) :
    extend fields (more ++ others) = extend (extend fields more) others :=
  List.foldl_append

theorem mem_of_mem_extend {fields more : List (κ × α)} {pair : κ × α}
    (h : pair ∈ extend fields more) : pair ∈ fields ∨ pair ∈ more := by
  induction more generalizing fields with
  | nil => exact .inl h
  | cons first rest ih =>
    rcases ih h with hinsert | hrest
    · refine (mem_of_mem_insert hinsert).imp id fun heq => ?_
      rw [heq]
      exact List.mem_cons_self
    · exact .inr (List.mem_cons_of_mem first hrest)

theorem keys_extend_nodup {fields : List (κ × α)} (h : (fields.map Prod.fst).Nodup)
    (more : List (κ × α)) : ((extend fields more).map Prod.fst).Nodup := by
  induction more generalizing fields with
  | nil => exact h
  | cons first rest ih => exact ih (keys_insert_nodup h first.1 first.2)

/-- **Names that are all different** are only put one after the other. -/
theorem extend_of_nodup {fields more : List (κ × α)}
    (h : ((fields ++ more).map Prod.fst).Nodup) : extend fields more = fields ++ more := by
  induction more generalizing fields with
  | nil => exact (List.append_nil fields).symm
  | cons first rest ih =>
    have hnew : first.1 ∉ fields.map Prod.fst := by
      rw [List.map_append, List.map_cons] at h
      exact fun hmem => (List.nodup_append.mp h).2.2 _ hmem _ List.mem_cons_self rfl
    have hstep : extend fields (first :: rest) = extend (insert fields first.1 first.2) rest := rfl
    rw [hstep, insert_of_not_mem hnew, ih (by simpa using h), List.append_assoc]
    rfl

theorem ofList_of_nodup {pairs : List (κ × α)} (h : (pairs.map Prod.fst).Nodup) :
    ofList pairs = pairs :=
  extend_of_nodup h

theorem map_extend {β : Type} (f : α → β) (fields more : List (κ × α)) :
    (extend fields more).map (fun pair => (pair.1, f pair.2)) =
      extend (fields.map fun pair => (pair.1, f pair.2))
        (more.map fun pair => (pair.1, f pair.2)) := by
  induction more generalizing fields with
  | nil => rfl
  | cons first rest ih =>
    have hstep : extend fields (first :: rest) = extend (insert fields first.1 first.2) rest := rfl
    rw [hstep, ih, map_insert]
    rfl

end Stencil.Dictionary
