import Stencil.Proofs.Report

/-!
# Reports that are collected

A report is begun with a limit and is then given errors, warnings, and other reports that were
collected in the same way, each with a limit of its own. This file fixes

* what was done to collect a report, as a tree (`Collection`), and the report it comes to
  (`Collection.report`);
* what was pushed onto the report and onto all that was merged into it (`pushedErrors`,
  `pushedWarnings`), and the errors it was shown (`shown`): a merged report shows only those that it
  had stored itself;
* that a report accounts for what was pushed (`Collection.accounts`): it counts all of it,
  stores all warnings, and stores as many of the errors it was shown as its limit allows. Each way
  of going on keeps the account (`Accounts.error`, `Accounts.warning`, `Accounts.merge`).

Counts are natural numbers: they have no bound of their own.
-/

namespace Stencil.Report

/-- What was done to collect a report. -/
inductive Collection where
  /-- The report is begun with a limit. -/
  | start (limit : Nat)
  | error (before : Collection) (d : Diagnostic)
  | warning (before : Collection) (d : Diagnostic)
  /-- All of a second collected report is moved into the first one. -/
  | merge (before other : Collection)

namespace Collection

variable {c other : Collection}

/-! ## 1. What is collected -/

/-- The collected report. -/
def report : Collection → Report
  | start limit => withLimit limit
  | error before d => before.report.addError d
  | warning before d => before.report.addWarning d
  | merge before other => before.report.merge other.report

/-- The limit a collection was begun with. What is merged into it has limits of its own. -/
def limit : Collection → Nat
  | start limit => limit
  | error before _ => before.limit
  | warning before _ => before.limit
  | merge before _ => before.limit

/-- The errors that were pushed, onto the report and onto all that was merged into it. -/
def pushedErrors : Collection → List Diagnostic
  | start _ => []
  | error before d => before.pushedErrors ++ [d]
  | warning before _ => before.pushedErrors
  | merge before other => before.pushedErrors ++ other.pushedErrors

/-- The warnings that were pushed, onto the report and onto all that was merged into it. -/
def pushedWarnings : Collection → List Diagnostic
  | start _ => []
  | error before _ => before.pushedWarnings
  | warning before d => before.pushedWarnings ++ [d]
  | merge before other => before.pushedWarnings ++ other.pushedWarnings

/-- The errors that the report was shown: those pushed onto it, and of each merged report those that
    it had stored. -/
def shown : Collection → List Diagnostic
  | start _ => []
  | error before d => before.shown ++ [d]
  | warning before _ => before.shown
  | merge before other => before.shown ++ other.report.errors

/-! ## 2. The account of a report -/

/-- A report accounts for what was pushed onto it, directly or by way of merged reports. -/
structure Accounts (c : Collection) : Prop where
  limit : c.report.limit = max 1 c.limit
  /-- Stored are the first of the errors shown. -/
  errors : c.report.errors = c.shown.take (max 1 c.limit)
  warnings : c.report.warnings = c.pushedWarnings
  /-- Counted are all errors pushed. -/
  totalErrors : c.report.totalErrors = c.pushedErrors.length
  totalWarnings : c.report.totalWarnings = c.pushedWarnings.length
  /-- No more errors are shown than pushed, and some if any are pushed. -/
  shown_le : c.shown.length ≤ c.pushedErrors.length
  shown_ne_nil : c.pushedErrors ≠ [] → c.shown ≠ []

namespace Accounts

theorem start (limit : Nat) : Accounts (.start limit) where
  limit := Nat.max_comm limit 1
  errors := List.take_nil.symm
  warnings := rfl
  totalErrors := rfl
  totalWarnings := rfl
  shown_le := Nat.le_refl 0
  shown_ne_nil := id

/-- The limit is kept. -/
theorem bounded (h : c.Accounts) : c.report.errors.length ≤ c.report.limit := by
  rw [h.limit, h.errors]
  exact List.length_take_le _ _

/-- What the report receives beside what it was shown is stored behind it, up to the limit. -/
theorem errors_of_receives {r : Report} {more : List Diagnostic} {lost : Nat} (h : c.Accounts)
    (hr : c.report.Receives r more lost) : r.errors = (c.shown ++ more).take (max 1 c.limit) := by
  rw [hr.errors, h.limit, h.errors, take_append_of_take]

theorem length_errors_le (h : c.Accounts) : c.report.errors.length ≤ c.pushedErrors.length := by
  rw [h.errors]
  exact Nat.le_trans (List.length_take_le' _ _) h.shown_le

/-- **The first error is stored**, whatever the limit. -/
theorem errors_ne_nil (h : c.Accounts) (hpushed : c.pushedErrors ≠ []) : c.report.errors ≠ [] := by
  rw [h.errors, ne_eq, List.take_eq_nil_iff, not_or]
  exact ⟨by omega, h.shown_ne_nil hpushed⟩

theorem error (h : c.Accounts) (d : Diagnostic) : Accounts (.error c d) where
  limit := h.limit
  errors := h.errors_of_receives (receives_addErrors h.bounded [d])
  warnings := h.warnings
  totalErrors := by
    rw [report, pushedErrors, List.length_append, ← h.totalErrors]
    rfl
  totalWarnings := h.totalWarnings
  shown_le := by
    rw [shown, pushedErrors, List.length_append, List.length_append]
    exact Nat.add_le_add_right h.shown_le 1
  shown_ne_nil _ := List.append_ne_nil_of_right_ne_nil _ (List.cons_ne_nil d [])

theorem warning (h : c.Accounts) (d : Diagnostic) : Accounts (.warning c d) where
  limit := h.limit
  errors := h.errors
  warnings := by
    rw [report, pushedWarnings, ← h.warnings]
    rfl
  totalErrors := h.totalErrors
  totalWarnings := by
    rw [report, pushedWarnings, List.length_append, ← h.totalWarnings]
    rfl
  shown_le := h.shown_le
  shown_ne_nil := h.shown_ne_nil

/-- **A merged report hands on what it stored and what it counted.** -/
theorem merge (h : c.Accounts) (h' : other.Accounts) : Accounts (.merge c other) where
  limit := (receives_merge h.bounded other.report).limit.trans h.limit
  errors := h.errors_of_receives (receives_merge h.bounded other.report)
  warnings := by
    rw [pushedWarnings, ← h.warnings, ← h'.warnings]
    simp [report, Report.merge]
  totalErrors := by
    have hreceived := (receives_merge h.bounded other.report).totalErrors
    have hle := h'.length_errors_le
    rw [h.totalErrors, h'.totalErrors] at hreceived
    rw [pushedErrors, List.length_append]
    show (c.report.merge other.report).totalErrors = _
    omega
  totalWarnings := by
    rw [pushedWarnings, List.length_append, ← h.totalWarnings, ← h'.warnings]
    simp [report, Report.merge]
  shown_le := by
    rw [shown, pushedErrors, List.length_append, List.length_append]
    exact Nat.add_le_add h.shown_le h'.length_errors_le
  shown_ne_nil hpushed := by
    by_cases hfirst : c.pushedErrors = []
    · rw [pushedErrors, hfirst, List.nil_append] at hpushed
      exact List.append_ne_nil_of_right_ne_nil _ (h'.errors_ne_nil hpushed)
    · exact List.append_ne_nil_of_left_ne_nil (h.shown_ne_nil hfirst) _

end Accounts

/-- Every collected report accounts for what was pushed. -/
theorem accounts (c : Collection) : c.Accounts := by
  induction c with
  | start limit => exact .start limit
  | error before d ih => exact ih.error d
  | warning before d ih => exact ih.warning d
  | merge before other ih ih' => exact ih.merge ih'

/-- There are errors where any were pushed, and then the first one is there. -/
theorem hasErrors_iff (c : Collection) :
    c.report.hasErrors = true ↔ c.report.first?.isSome = true := by
  have h := c.accounts
  rw [hasErrors, decide_eq_true_iff, first?, List.isSome_head?, h.totalErrors,
    List.length_pos_iff]
  refine ⟨h.errors_ne_nil, fun hstored hnone => hstored ?_⟩
  have hlength := h.length_errors_le
  rw [hnone] at hlength
  exact List.length_eq_zero_iff.mp (Nat.le_zero.mp hlength)

/-- **What holds of every report, however it was collected.** It stores no more errors than its
    limit allows, and no more than it counts. It counts all errors and all warnings that were
    pushed, on it and on what was merged into it; it stores all the warnings, and of the errors it
    was shown the first ones. There are errors if it counts any, and if the first one is there. -/
theorem report_tallies (c : Collection) :
    c.report.errors.length ≤ max 1 c.limit ∧
    c.report.errors.length ≤ c.report.totalErrors ∧
    c.report.totalErrors = c.pushedErrors.length ∧
    c.report.totalWarnings = c.pushedWarnings.length ∧
    c.report.warnings = c.pushedWarnings ∧
    c.report.errors = c.shown.take (max 1 c.limit) ∧
    (c.report.hasErrors = true ↔ 0 < c.report.totalErrors) ∧
    (c.report.hasErrors = true ↔ c.report.first?.isSome = true) := by
  have h := c.accounts
  refine ⟨?_, ?_, h.totalErrors, h.totalWarnings, h.warnings, h.errors, ?_, c.hasErrors_iff⟩
  · exact h.limit ▸ h.bounded
  · rw [h.totalErrors]
    exact h.length_errors_le
  · exact decide_eq_true_iff

/-- An error that a merged report had no room for is counted, and not stored. -/
example (d d' : Diagnostic) :
    let c := Collection.merge (.start 20) (.error (.error (.start 0) d) d')
    c.report.errors = [d] ∧ c.report.totalErrors = 2 := ⟨rfl, rfl⟩

end Collection

end Stencil.Report
