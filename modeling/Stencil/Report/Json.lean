import Stencil.DocPath.Json
import Stencil.Report

/-!
# Diagnostics as JSON

This file fixes how diagnostics and reports are stored and loaded. A diagnostic is stored without
the column and the suggestion that it does not have; a report is stored without its limit, and has
the usual one when it is loaded.
-/

namespace Stencil

/-! ## 1. Names -/

namespace Severity

/-- The stored name of a severity. -/
def name : Severity → String
  | .error => "error"
  | .warning => "warning"

/-- The severity of a name. -/
def ofName? (name : String) : Option Severity :=
  if name = "error" then some .error else if name = "warning" then some .warning else none

end Severity

/-- The category of a name. -/
def Category.ofName? (name : String) : Option Category :=
  if name = "syntax" then some .syntactic
  else if name = "directive" then some .directive
  else if name = "evaluation" then some .evaluation
  else none

/-- The name that a tree holds: a text, or an object with null under the name. -/
def Json.tag? : Json → Option String
  | .text s => some s
  | .object [(s, .null)] => some s
  | _ => none

/-! ## 2. Diagnostics -/

namespace Diagnostic

/-- The fields of a diagnostic. -/
def shape : Json.Shape :=
  ⟨["code", "severity", "category", "message", "path", "column", "suggestion"], true, false⟩

/-- The tree of a code. -/
def codeToJson (code : ErrorCode) : Json :=
  .number (.int code.number.toNat)

/-- The tree of a diagnostic. -/
def toJson (d : Diagnostic) : Json :=
  .object
    ([("code", codeToJson d.code), ("severity", .text d.severity.name),
      ("category", .text d.category.name), ("message", .text d.message),
      ("path", d.path.toJson)] ++
     (d.column.toList.map fun column => ("column", .number (.int column.toNat))) ++
     (d.suggestion.toList.map fun suggestion => ("suggestion", .text suggestion)))

/-- The code of a tree. -/
def codeOfJson? (tree : Json) : Option ErrorCode :=
  (tree.natBelow? (Nat.pow 2 16)).map fun n => ⟨UInt16.ofNat n⟩

/-- The column of a tree. -/
def columnOfJson? (tree : Json) : Option UInt32 :=
  (tree.natBelow? (Nat.pow 2 32)).map UInt32.ofNat

/-- The diagnostic of a tree. Its severity and its category are taken as they are given. -/
def ofJson? (tree : Json) : Option Diagnostic := do
  let fields ← tree.record? shape
  let code ← Json.required? codeOfJson? fields "code"
  let severity ← Json.required? (fun t => t.tag?.bind Severity.ofName?) fields "severity"
  let category ← Json.required? (fun t => t.tag?.bind Category.ofName?) fields "category"
  let message ← Json.required? Json.text? fields "message"
  let path ← Json.required? DocPath.ofJson? fields "path"
  let column ← Json.optional? columnOfJson? fields "column"
  let suggestion ← Json.optional? Json.text? fields "suggestion"
  return ⟨code, severity, category, message, path, column, suggestion⟩

end Diagnostic

/-! ## 3. Reports -/

namespace Report

/-- The fields of a report. -/
def shape : Json.Shape :=
  ⟨["errors", "warnings", "total_errors", "total_warnings"], true, false⟩

/-- The tree of a report. -/
def toJson (r : Report) : Json :=
  .object
    [("errors", .array (r.errors.map Diagnostic.toJson)),
     ("warnings", .array (r.warnings.map Diagnostic.toJson)),
     ("total_errors", .number (.int r.totalErrors)),
     ("total_warnings", .number (.int r.totalWarnings))]

/-- The report of a tree, with the usual limit. -/
def ofJson? (tree : Json) : Option Report := do
  let fields ← tree.record? shape
  let errors ← Json.required? (Json.list? Diagnostic.ofJson?) fields "errors"
  let warnings ← Json.required? (Json.list? Diagnostic.ofJson?) fields "warnings"
  let totalErrors ← Json.required? Json.nat? fields "total_errors"
  let totalWarnings ← Json.required? Json.nat? fields "total_warnings"
  return ⟨errors, warnings, totalErrors, totalWarnings, defaultLimit⟩

end Report

end Stencil
