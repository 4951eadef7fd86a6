import Stencil.Diagnostic

/-!
# Reports

A report collects diagnostics. It stores errors up to a limit and counts them all; warnings are all
stored. This file fixes the limit (`Report.withLimit`: at least one error is always kept), the
additions (`addError`, `addWarning`) and the merging of one report into another (`merge`: what the
second had dropped stays counted).
-/

namespace Stencil

/-- Diagnostics, and how many there were. -/
structure Report where
  errors : List Diagnostic
  warnings : List Diagnostic
  totalErrors : Nat
  totalWarnings : Nat
  limit : Nat
  deriving DecidableEq, Repr

namespace Report

/-- The number of errors a report stores if nothing else is asked for. -/
def defaultLimit : Nat := 20

/-- The report without diagnostics that stores at most `limit` errors, and always the first. -/
def withLimit (limit : Nat) : Report :=
  ⟨[], [], 0, 0, max limit 1⟩

/-- The report without diagnostics and with the usual limit. -/
def empty : Report :=
  withLimit defaultLimit

/-- Were there errors? -/
def hasErrors (r : Report) : Bool :=
  0 < r.totalErrors

/-- Is no further error stored? -/
def isFull (r : Report) : Bool :=
  r.limit ≤ r.errors.length

/-- The report with one more error. -/
def addError (r : Report) (d : Diagnostic) : Report :=
  { r with
    errors := if r.isFull then r.errors else r.errors ++ [d]
    totalErrors := r.totalErrors + 1 }

/-- The report with one more warning. -/
def addWarning (r : Report) (d : Diagnostic) : Report :=
  { r with
    warnings := r.warnings ++ [d]
    totalWarnings := r.totalWarnings + 1 }

/-- The report with the errors of a list. -/
def addErrors (r : Report) (ds : List Diagnostic) : Report :=
  ds.foldl addError r

/-- The report with the warnings of a list. -/
def addWarnings (r : Report) (ds : List Diagnostic) : Report :=
  ds.foldl addWarning r

/-- The report with all that a second one holds. The errors that the second counted and did not
    store are counted here, too. -/
def merge (r other : Report) : Report :=
  let added := r.addErrors other.errors
  let dropped := other.totalErrors - other.errors.length
  { added with totalErrors := added.totalErrors + dropped }.addWarnings other.warnings

@[simp] theorem limit_addErrors (r : Report) (ds : List Diagnostic) :
    (r.addErrors ds).limit = r.limit := by
  induction ds generalizing r with
  | nil => rfl
  | cons d rest ih => exact ih (r.addError d)

/-- **All errors are counted.** -/
@[simp] theorem totalErrors_addErrors (r : Report) (ds : List Diagnostic) :
    (r.addErrors ds).totalErrors = r.totalErrors + ds.length := by
  induction ds generalizing r with
  | nil => rfl
  | cons d rest ih =>
    have hrest := ih (r.addError d)
    simp only [addError] at hrest
    rw [List.length_cons, Nat.add_comm rest.length 1, ← Nat.add_assoc]
    exact hrest

/-- **The first errors are stored**, as many as the limit allows. -/
theorem errors_addErrors {r : Report} (h : r.errors.length ≤ r.limit) (ds : List Diagnostic) :
    (r.addErrors ds).errors = (r.errors ++ ds).take r.limit := by
  induction ds generalizing r with
  | nil => simp [addErrors, List.take_of_length_le h]
  | cons d rest ih =>
    have hstep : (r.addErrors (d :: rest)).errors = ((r.addError d).addErrors rest).errors := rfl
    rw [hstep]
    by_cases hfull : r.limit ≤ r.errors.length
    · have hlen : r.errors.length = r.limit := Nat.le_antisymm h hfull
      rw [ih (by simp [addError, isFull, hfull, h])]
      simp [addError, isFull, hlen]
    · have hlt : r.errors.length < r.limit := Nat.lt_of_not_le hfull
      have hroom : (r.addError d).errors.length ≤ (r.addError d).limit := by
        simp only [addError, isFull, hfull, decide_false, Bool.false_eq_true, if_false,
          List.length_append, List.length_singleton]
        exact hlt
      rw [ih hroom]
      simp [addError, isFull, hfull]

/-- The first error. -/
def first? (r : Report) : Option Diagnostic :=
  r.errors.head?

/-- The text of a report: its first error, and how many there are beside it. -/
def text (r : Report) : String :=
  match r.first? with
  | none => "no errors"
  | some d =>
    if 1 < r.totalErrors then
      d.text ++ " (and " ++ Decimal.naturalText (r.totalErrors - 1) ++ " more)"
    else d.text

/-- The report that stores all errors of a list. -/
def ofErrors (ds : List Diagnostic) : Report :=
  (withLimit ds.length).addErrors ds

end Report

end Stencil
