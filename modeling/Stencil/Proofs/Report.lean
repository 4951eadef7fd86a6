import Stencil.Report

/-!
# What a report makes of errors

A report is given errors one by one, in lists, or by a second report, which may itself have dropped
some. This file fixes what all of these come to (`Report.Receives`): the report is shown some errors
and told of the number of others. Of what it is shown it stores the first, up to its limit; it
counts everything. What is received piece by piece is received at once (`Receives.trans`).
-/

namespace Stencil.Report

/-! ## 1. Warnings and errors are apart -/

@[simp] theorem errors_addWarnings (r : Report) (ds : List Diagnostic) :
    (r.addWarnings ds).errors = r.errors := by
  induction ds generalizing r with
  | nil => rfl
  | cons d rest ih => exact ih (r.addWarning d)

@[simp] theorem totalErrors_addWarnings (r : Report) (ds : List Diagnostic) :
    (r.addWarnings ds).totalErrors = r.totalErrors := by
  induction ds generalizing r with
  | nil => rfl
  | cons d rest ih => exact ih (r.addWarning d)

@[simp] theorem limit_addWarnings (r : Report) (ds : List Diagnostic) :
    (r.addWarnings ds).limit = r.limit := by
  induction ds generalizing r with
  | nil => rfl
  | cons d rest ih => exact ih (r.addWarning d)

@[simp] theorem warnings_addErrors (r : Report) (ds : List Diagnostic) :
    (r.addErrors ds).warnings = r.warnings := by
  induction ds generalizing r with
  | nil => rfl
  | cons d rest ih => exact ih (r.addError d)

@[simp] theorem totalWarnings_addErrors (r : Report) (ds : List Diagnostic) :
    (r.addErrors ds).totalWarnings = r.totalWarnings := by
  induction ds generalizing r with
  | nil => rfl
  | cons d rest ih => exact ih (r.addError d)

/-- **All warnings are stored.** -/
@[simp] theorem warnings_addWarnings (r : Report) (ds : List Diagnostic) :
    (r.addWarnings ds).warnings = r.warnings ++ ds := by
  induction ds generalizing r with
  | nil => exact (List.append_nil _).symm
  | cons d rest ih =>
    have hrest : ((r.addWarning d).addWarnings rest).warnings = r.warnings ++ [d] ++ rest :=
      ih (r.addWarning d)
    rwa [List.append_assoc] at hrest

@[simp] theorem totalWarnings_addWarnings (r : Report) (ds : List Diagnostic) :
    (r.addWarnings ds).totalWarnings = r.totalWarnings + ds.length := by
  induction ds generalizing r with
  | nil => rfl
  | cons d rest ih =>
    have hrest : ((r.addWarning d).addWarnings rest).totalWarnings =
        r.totalWarnings + 1 + rest.length := ih (r.addWarning d)
    rwa [Nat.add_assoc, Nat.add_comm 1] at hrest

/-! ## 2. Receiving errors -/

/-- Only what is added is stored beside what was stored. -/
theorem mem_errors_addErrors {r : Report} {ds : List Diagnostic} {d : Diagnostic}
    (h : d ∈ (r.addErrors ds).errors) : d ∈ r.errors ∨ d ∈ ds := by
  induction ds generalizing r with
  | nil => exact .inl h
  | cons first rest ih =>
    rcases ih h with hbefore | hrest
    · rw [addError] at hbefore
      split at hbefore
      · exact .inl hbefore
      · rcases List.mem_append.mp hbefore with hr | hfirst
        · exact .inl hr
        · exact .inr (List.mem_singleton.mp hfirst ▸ List.mem_cons_self)
    · exact .inr (List.mem_cons_of_mem first hrest)

theorem mem_errors_merge {r other : Report} {d : Diagnostic} (h : d ∈ (r.merge other).errors) :
    d ∈ r.errors ∨ d ∈ other.errors := by
  rw [merge, errors_addWarnings] at h
  exact mem_errors_addErrors h

/-- A second report is the first one after it has been shown some errors and told of the number of
    others that were lost before. -/
structure Receives (r r' : Report) (shown : List Diagnostic) (lost : Nat) : Prop where
  limit : r'.limit = r.limit
  errors : r'.errors = (r.errors ++ shown).take r.limit
  totalErrors : r'.totalErrors = r.totalErrors + shown.length + lost

variable {r r' r'' : Report} {shown more : List Diagnostic} {lost lost' : Nat}

theorem receives_refl (h : r.errors.length ≤ r.limit) : r.Receives r [] 0 where
  limit := rfl
  errors := by rw [List.append_nil, List.take_of_length_le h]
  totalErrors := rfl

theorem receives_addErrors (h : r.errors.length ≤ r.limit) (ds : List Diagnostic) :
    r.Receives (r.addErrors ds) ds 0 where
  limit := limit_addErrors r ds
  errors := errors_addErrors h ds
  totalErrors := totalErrors_addErrors r ds

/-- A report that is merged shows what it stores; the others that it counts are lost. -/
theorem receives_merge (h : r.errors.length ≤ r.limit) (other : Report) :
    r.Receives (r.merge other) other.errors (other.totalErrors - other.errors.length) where
  limit := by simp [merge]
  errors := by simp [merge, errors_addErrors h]
  totalErrors := by simp [merge]

/-- What was cut off before is cut off in the end. -/
theorem take_append_of_take (front back : List Diagnostic) (n : Nat) :
    (front.take n ++ back).take n = (front ++ back).take n := by
  rw [List.take_append, List.take_append, List.take_take, Nat.min_self, List.length_take]
  congr 2
  omega

/-- **What is received piece by piece is received at once.** -/
theorem Receives.trans (h : r.Receives r' shown lost) (h' : r'.Receives r'' more lost') :
    r.Receives r'' (shown ++ more) (lost + lost') where
  limit := h'.limit.trans h.limit
  errors := by
    rw [h'.errors, h.limit, h.errors, take_append_of_take, List.append_assoc]
  totalErrors := by
    rw [h'.totalErrors, h.totalErrors, List.length_append]
    omega

theorem Receives.bounded (h : r.Receives r' shown lost) : r'.errors.length ≤ r'.limit := by
  rw [h.limit, h.errors]
  exact List.length_take_le _ _

/-- No more is stored than counted. -/
theorem Receives.length_le_totalErrors (h : r.Receives r' shown lost)
    (hcounted : r.errors.length ≤ r.totalErrors) : r'.errors.length ≤ r'.totalErrors := by
  have hlength : r'.errors.length ≤ (r.errors ++ shown).length := by
    rw [h.errors]
    exact List.length_take_le' _ _
  rw [List.length_append] at hlength
  rw [h.totalErrors]
  omega

/-- Stored errors stay where they are. -/
theorem Receives.isPrefix_errors (h : r.Receives r' shown lost)
    (hbounded : r.errors.length ≤ r.limit) : r.errors <+: r'.errors := by
  rw [h.errors, List.prefix_take_iff]
  exact ⟨List.prefix_append _ _, hbounded⟩

/-- A full report stores nothing more. -/
theorem Receives.errors_of_isFull (h : r.Receives r' shown lost)
    (hbounded : r.errors.length ≤ r.limit) (hfull : r.isFull = true) : r'.errors = r.errors := by
  have hlimit : r.limit ≤ r.errors.length := of_decide_eq_true hfull
  rw [h.errors, List.take_append_of_le_length hlimit, List.take_of_length_le hbounded]

theorem Receives.isFull (h : r.Receives r' shown lost) (hbounded : r.errors.length ≤ r.limit)
    (hfull : r.isFull = true) : r'.isFull = true := by
  rw [Report.isFull, h.limit, h.errors_of_isFull hbounded hfull]
  exact hfull

end Stencil.Report
