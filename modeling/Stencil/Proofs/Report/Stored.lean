import Stencil.Report.Json

/-!
# Stored reports

A report is stored as a tree, and loaded from it. This file fixes

* that lists, records, and fields that are left out if there is nothing to store are read as they
  were written (`Json.list?_map`, `Json.record?_object`, `Json.optional?_of_get?`);
* that paths and diagnostics are loaded as they were stored: the steps of a path are told apart by
  their trees, and a column or a suggestion is there if it was stored (`DocPath.ofJson?_toJson`,
  `Diagnostic.ofJson?_toJson`);
* that a report is loaded with all that was stored and with the usual limit, so it is the same
  report exactly if that was its limit (`Report.ofJson?_toJson`).
-/

namespace Stencil

/-! ## 1. Reading what was written -/

namespace Json

variable {α : Type} {read : Json → Option α} {write : α → Json} {fields : List (String × Json)}
  {name : String}

/-- **A list is read item by item.** -/
theorem list?_map (h : ∀ a, read (write a) = some a) (as : List α) :
    (array (as.map write)).list? read = some as := by
  rw [list?]
  induction as with
  | nil => rfl
  | cons a rest ih =>
    rw [List.map_cons, List.mapM_cons, h, ih]
    rfl

/-- **An object is a record** if its fields are some of those of the shape, each once. -/
theorem record?_object {shape : Shape} (hnames : shape.names.Nodup)
    (h : (fields.map Prod.fst).Sublist shape.names) :
    (object fields).record? shape = some fields := by
  have hnodup : (fields.map Prod.fst).Nodup := h.nodup hnames
  have hrepeats : hasNoRepeats shape.names fields = true := by
    refine List.all_eq_true.mpr fun name _ => decide_eq_true ?_
    have hcount := List.nodup_iff_count.mp hnodup name
    rwa [List.count, List.countP_map, List.countP_eq_length_filter] at hcount
  have hknown : (fields.all fun field => shape.names.contains field.1) = true := by
    refine List.all_eq_true.mpr fun field hfield => List.contains_iff_mem.mpr ?_
    exact h.subset (List.mem_map_of_mem hfield)
  rw [record?, if_pos ⟨hrepeats, .inr hknown⟩]

theorem required?_of_get? {tree : Json} {a : α} (hget : Dictionary.get? fields name = some tree)
    (h : read tree = some a) : required? read fields name = some a := by
  rw [required?, hget, Option.bind_some, h]

/-- **A field that is left out is read as missing**, and any other as what was written; null is not
    written. -/
theorem optional?_of_get? {o : Option α} (hget : Dictionary.get? fields name = o.map write)
    (h : ∀ a, read (write a) = some a) (hnull : ∀ a, write a ≠ .null) :
    optional? read fields name = some o := by
  rw [optional?, withDefault?, hget]
  cases o with
  | none => rfl
  | some a =>
    have hread : orNull? read (write a) = (read (write a)).map some := by
      rw [orNull?]
      exact hnull a
    exact hread.trans (by rw [h, Option.map_some])

theorem nat?_natCast (n : Nat) : (number (.int n)).nat? = some n := by
  rw [nat?, int?]
  exact if_pos (Int.natCast_nonneg n)

theorem natBelow?_natCast {bound n : Nat} (h : n < bound) :
    (number (.int n)).natBelow? bound = some n := by
  rw [natBelow?, nat?_natCast]
  exact if_pos h

end Json

/-! ## 2. Paths -/

/-- A position is a number and a name is a text, so a step is loaded as what it was. -/
theorem Segment.ofJson?_toJson (s : Segment) : ofJson? s.toJson = some s := by
  cases s with
  | index i => exact congrArg (Option.map Segment.index) (Json.nat?_natCast i)
  | field name => rfl

theorem DocPath.ofJson?_toJson (path : DocPath) : ofJson? path.toJson = some path := by
  rw [ofJson?, toJson, Json.list?_map Segment.ofJson?_toJson, Option.map_some]

/-! ## 3. Diagnostics -/

namespace Diagnostic

theorem codeOfJson?_codeToJson (code : ErrorCode) : codeOfJson? (codeToJson code) = some code := by
  rw [codeOfJson?, codeToJson, Json.natBelow?_natCast code.number.toNat_lt, Option.map_some,
    UInt16.ofNat_toNat]

theorem columnOfJson?_toNat (column : UInt32) :
    columnOfJson? (.number (.int column.toNat)) = some column := by
  rw [columnOfJson?, Json.natBelow?_natCast column.toNat_lt, Option.map_some, UInt32.ofNat_toNat]

/-- The fields that a diagnostic is stored with. -/
def storedFields (d : Diagnostic) : List (String × Json) :=
  [("code", codeToJson d.code), ("severity", .text d.severity.name),
    ("category", .text d.category.name), ("message", .text d.message),
    ("path", d.path.toJson)] ++
   (d.column.toList.map fun column => ("column", .number (.int column.toNat))) ++
   (d.suggestion.toList.map fun suggestion => ("suggestion", .text suggestion))

/-- What is left out is missing among the names, and nothing is moved. -/
theorem names_storedFields_sublist (d : Diagnostic) :
    (d.storedFields.map Prod.fst).Sublist shape.names := by
  obtain ⟨code, severity, category, message, path, column, suggestion⟩ := d
  -- whether a field is there does not depend on what it holds
  cases column <;> cases suggestion <;> exact of_decide_eq_true rfl

theorem get?_column (d : Diagnostic) : Dictionary.get? d.storedFields "column" =
    d.column.map fun column => .number (.int column.toNat) := by
  obtain ⟨code, severity, category, message, path, column, suggestion⟩ := d
  cases column <;> cases suggestion <;> rfl

theorem get?_suggestion (d : Diagnostic) :
    Dictionary.get? d.storedFields "suggestion" = d.suggestion.map .text := by
  obtain ⟨code, severity, category, message, path, column, suggestion⟩ := d
  cases column <;> cases suggestion <;> rfl

theorem ofJson?_toJson (d : Diagnostic) : ofJson? d.toJson = some d := by
  have hrecord : d.toJson.record? shape = some d.storedFields :=
    Json.record?_object (by decide) d.names_storedFields_sublist
  have hcode : Json.required? codeOfJson? d.storedFields "code" = some d.code :=
    Json.required?_of_get? rfl (codeOfJson?_codeToJson d.code)
  have hseverity : Json.required? (fun tree => tree.tag?.bind Severity.ofName?) d.storedFields
      "severity" = some d.severity := Json.required?_of_get? rfl (by cases d.severity <;> rfl)
  have hcategory : Json.required? (fun tree => tree.tag?.bind Category.ofName?) d.storedFields
      "category" = some d.category := Json.required?_of_get? rfl (by cases d.category <;> rfl)
  have hmessage : Json.required? Json.text? d.storedFields "message" = some d.message :=
    Json.required?_of_get? rfl rfl
  have hpath : Json.required? DocPath.ofJson? d.storedFields "path" = some d.path :=
    Json.required?_of_get? rfl (DocPath.ofJson?_toJson d.path)
  have hcolumn : Json.optional? columnOfJson? d.storedFields "column" = some d.column :=
    Json.optional?_of_get? d.get?_column columnOfJson?_toNat nofun
  have hsuggestion : Json.optional? Json.text? d.storedFields "suggestion" = some d.suggestion :=
    Json.optional?_of_get? d.get?_suggestion (fun _ => rfl) nofun
  rw [ofJson?, hrecord]
  simp only [Option.bind_eq_bind, Option.bind_some, hcode, hseverity, hcategory, hmessage, hpath,
    hcolumn, hsuggestion]
  rfl

end Diagnostic

/-! ## 4. Reports -/

namespace Report

/-- The fields that a report is stored with. -/
def storedFields (r : Report) : List (String × Json) :=
  [("errors", .array (r.errors.map Diagnostic.toJson)),
    ("warnings", .array (r.warnings.map Diagnostic.toJson)),
    ("total_errors", .number (.int r.totalErrors)),
    ("total_warnings", .number (.int r.totalWarnings))]

/-- All that was stored is loaded, and the limit is the usual one. -/
theorem ofJson?_toJson (r : Report) :
    ofJson? r.toJson = some ⟨r.errors, r.warnings, r.totalErrors, r.totalWarnings, 20⟩ := by
  have hrecord : r.toJson.record? shape = some r.storedFields :=
    Json.record?_object (by decide) (List.Sublist.refl _)
  have herrors : Json.required? (Json.list? Diagnostic.ofJson?) r.storedFields "errors" =
      some r.errors :=
    Json.required?_of_get? rfl (Json.list?_map Diagnostic.ofJson?_toJson r.errors)
  have hwarnings : Json.required? (Json.list? Diagnostic.ofJson?) r.storedFields "warnings" =
      some r.warnings :=
    Json.required?_of_get? rfl (Json.list?_map Diagnostic.ofJson?_toJson r.warnings)
  have htotalErrors : Json.required? Json.nat? r.storedFields "total_errors" =
      some r.totalErrors := Json.required?_of_get? rfl (Json.nat?_natCast r.totalErrors)
  have htotalWarnings : Json.required? Json.nat? r.storedFields "total_warnings" =
      some r.totalWarnings := Json.required?_of_get? rfl (Json.nat?_natCast r.totalWarnings)
  rw [ofJson?, hrecord]
  simp only [Option.bind_eq_bind, Option.bind_some, herrors, hwarnings, htotalErrors,
    htotalWarnings]
  rfl

/-- **A stored report is loaded** with its errors, its warnings and its totals, whatever these are,
    and with the limit 20; so it is the same report exactly if its limit is 20. Every path comes
    back step by step: what was a name is a name, and what was a position is a position. -/
theorem ofJson?_toJson_eq_iff (r : Report) :
    ofJson? r.toJson = some ⟨r.errors, r.warnings, r.totalErrors, r.totalWarnings, 20⟩ ∧
    (ofJson? r.toJson = some r ↔ r.limit = 20) ∧
    ∀ path : DocPath, (DocPath.ofJson? path.toJson).map DocPath.segments = some path.segments := by
  refine ⟨r.ofJson?_toJson, ?_, fun path => congrArg _ path.ofJson?_toJson⟩
  rw [ofJson?_toJson, Option.some_inj]
  constructor
  · intro hsame
    rw [← hsame]
  · intro hlimit
    rw [← hlimit]

/-- A name that looks like a position stays a name. -/
example : DocPath.ofJson? ((DocPath.root.field "0").index 0).toJson =
    some ⟨[.field "0", .index 0]⟩ := rfl

end Report

end Stencil
