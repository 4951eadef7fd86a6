import Mathlib
import Stencil.Proofs.Document.Reporting

/-!
# Siblings

The elements of an array are parsed one after the other, and so are the fields of an object, with
one report for all of them. This file compares the parse of a document with the parses of its
children, each alone:

* what is wrong with a text is the same under every path (`Template.read_under`);
* a run of a parse in a longer document and a run of the same parse alone go side by side
  (`Parse.Beside`), as long as the report of the longer document has room and no node was too deep
  for it (`Parse.Moved.beside`);
* so what is reported of the children is what is reported of each of them alone, in order
  (`Parsed.errors_of_siblings`).
-/

namespace Stencil

/-! ## 1. Texts under a path -/

/-- The report of a document that stands under a path. -/
def Report.under (r : Report) (pre : DocPath) : Report :=
  { r with
    errors := r.errors.map fun d => d.under pre
    warnings := r.warnings.map fun d => d.under pre }

namespace Report

variable (pre : DocPath)

theorem addError_under (r : Report) (d : Diagnostic) :
    (r.addError d).under pre = (r.under pre).addError (d.under pre) := by
  have hsame : (r.under pre).isFull = r.isFull := by
    rw [isFull, isFull, under, List.length_map]
  unfold addError
  rw [hsame]
  by_cases hfull : r.isFull
  · simp [under, hfull]
  · simp [under, hfull]

@[simp] theorem addErrors_under (r : Report) (ds : List Diagnostic) :
    (r.addErrors ds).under pre = (r.under pre).addErrors (ds.map fun d => d.under pre) := by
  induction ds generalizing r with
  | nil => rfl
  | cons d rest ih =>
    have hrest := ih (r.addError d)
    rw [addError_under] at hrest
    exact hrest

@[simp] theorem ofErrors_under (ds : List Diagnostic) :
    (ofErrors ds).under pre = ofErrors (ds.map fun d => d.under pre) := by
  rw [ofErrors, addErrors_under, ofErrors, List.length_map]
  rfl

end Report

theorem Lexed.ofText_under (s : String) (path pre : DocPath) :
    ofText s (path.under pre) = ⟨(ofText s path).tokens, (ofText s path).report.under pre⟩ := by
  have hfaults : ∀ ls, Lexeme.faults (path.under pre) ls =
      (Lexeme.faults path ls).map fun d => d.under pre := by
    intro ls
    rw [Lexeme.faults, Lexeme.faults, List.map_append, List.map_map, List.map_map]
    rfl
  rw [ofText, hfaults]
  simp only [ofText, Report.addErrors_under]
  rfl

namespace Template

variable (path pre : DocPath)

theorem key_under (opened : UInt32) (stage : List Token) :
    key (path.under pre) opened stage = (key path opened stage).mapError fun d => d.under pre := by
  unfold key
  split
  · split <;> rfl
  · split <;> rfl
  · rfl

theorem filter_under (opened : UInt32) (stage : List Token) :
    filter (path.under pre) opened stage =
      (filter path opened stage).mapError fun d => d.under pre := by
  unfold filter
  split
  · rfl
  · split <;> rfl

theorem filters_under (opened : UInt32) (stages : List (List Token)) :
    filters (path.under pre) opened stages =
      (filters path opened stages).mapError fun d => d.under pre := by
  induction stages with
  | nil => rfl
  | cons stage rest ih =>
    rw [filters, filters, filter_under, ih]
    cases filter path opened stage with
    | error d => rfl
    | ok f =>
      cases filters path opened rest with
      | error d => rfl
      | ok fs => rfl

theorem call_under (opened : UInt32) (body : List Token) :
    call (path.under pre) opened body = (call path opened body).mapError fun d => d.under pre := by
  unfold call
  cases stages body with
  | nil => rfl
  | cons first rest =>
    simp only [key_under, filters_under]
    cases key path opened first with
    | error d => rfl
    | ok k =>
      cases filters path opened rest with
      | error d => rfl
      | ok fs => rfl

theorem piece_under (run : Run) :
    piece (path.under pre) run = (piece path run).mapError fun d => d.under pre := by
  cases run with
  | literal s => rfl
  | marker column body =>
    rw [piece, piece, call_under]
    cases call path column body <;> rfl

theorem pieces_under (rs : List Run) :
    pieces (path.under pre) rs =
      ((pieces path rs).1.map fun d => d.under pre, (pieces path rs).2) := by
  induction rs with
  | nil => rfl
  | cons run rest ih =>
    simp only [pieces, ih, piece_under]
    cases piece path run <;> rfl

/-- **What is wrong with a text is the same under every path**, and so is what the text denotes. -/
theorem read_under (s : String) :
    read s (path.under pre) = (read s path).mapError fun r => r.under pre := by
  unfold read
  rw [Lexed.ofText_under]
  by_cases hopening : hasOpening s.toList
  · rw [if_pos hopening, if_pos hopening]
    show (if (Lexed.ofText s path).report.hasErrors then _ else _) =
      (if (Lexed.ofText s path).report.hasErrors then _ else _ : Except Report Expr).mapError _
    by_cases herrors : (Lexed.ofText s path).report.hasErrors
    · rw [if_pos herrors, if_pos herrors]
      rfl
    · rw [if_neg herrors, if_neg herrors, pieces_under]
      rcases pieces path (runs none (Lexed.ofText s path).tokens) with ⟨_ | ⟨d, wrong⟩, right⟩
      · rfl
      · exact congrArg Except.error (Report.ofErrors_under pre (d :: wrong)).symm
  · rw [if_neg hopening, if_neg hopening]
    rfl

end Template

/-! ## 2. Findings side by side -/

/-- A report that has room in the end had room for everything that it was shown. -/
theorem Report.Receives.errors_of_room {r r' : Report} {shown : List Diagnostic} {lost : Nat}
    (h : r.Receives r' shown lost) (hroom : r'.isFull = false) :
    r'.errors = r.errors ++ shown := by
  have hlt : r'.errors.length < r.limit := h.limit ▸ Nat.lt_of_not_le (of_decide_eq_false hroom)
  have hlength := congrArg List.length h.errors
  rw [List.length_take] at hlength
  rw [h.errors, List.take_of_length_le (by omega)]

namespace Findings

/-- Some node was not entered: the report was full, or the node was too deep. -/
inductive Spoilt (found : Findings) : Prop where
  | full (h : found.report.isFull = true)
  | deep {d : Diagnostic} (h : d ∈ found.report.errors) (hcode : d.code = .structuralLimit)

variable {α : Type} {readable : String → Prop} {pre : DocPath} {before : Report}
variable {found whole alone : Findings} {r r' : Report} {shown : List Diagnostic} {lost : Nat}

/-- **What is spoilt stays spoilt**, whatever is parsed next. -/
theorem Spoilt.accounts (h : found.Spoilt) (hsound : found.Sound) {run : Option α × Findings}
    (hrun : Parse.Accounts readable found run) : run.2.Spoilt := by
  obtain ⟨shown, lost, hreceives, -⟩ := hrun.receives
  cases h with
  | full hfull => exact .full (hreceives.isFull hsound.bounded hfull)
  | deep hmem hcode => exact .deep ((hreceives.isPrefix_errors hsound.bounded).subset hmem) hcode

/-- The findings in a longer document, and those of a part of it alone. What was found `before` in
    the longer document stands in front of what was found in the part. -/
structure Joins (pre : DocPath) (before : Report) (whole alone : Findings) : Prop where
  room : whole.report.isFull = false
  level : whole.tooDeep = false
  levelAlone : alone.tooDeep = false
  limit : alone.report.limit = whole.report.limit
  errors : whole.report.errors = before.errors ++ alone.report.errors.map fun d => d.under pre
  totalErrors : whole.report.totalErrors = before.totalErrors + alone.report.totalErrors

/-- Where the longer document leaves room, the part alone does. -/
theorem Joins.roomAlone (h : Joins pre before whole alone) : alone.report.isFull = false := by
  have hlt : whole.report.errors.length < whole.report.limit :=
    Nat.lt_of_not_le (of_decide_eq_false h.room)
  rw [h.errors, List.length_append, List.length_map] at hlt
  rw [Report.isFull, h.limit]
  exact decide_eq_false (by omega)

/-- Errors that are shown on both sides are found on both sides, if there was room for them. -/
theorem Joins.receives (h : Joins pre before whole alone)
    (hwhole : whole.report.Receives r (shown.map fun d => d.under pre) lost)
    (halone : alone.report.Receives r' shown lost) (hroom : r.isFull = false) :
    Joins pre before ⟨r, whole.tooDeep⟩ ⟨r', alone.tooDeep⟩ := by
  have herrors : r.errors =
      before.errors ++ (alone.report.errors ++ shown).map fun d => d.under pre := by
    rw [hwhole.errors_of_room hroom, h.errors, List.map_append, List.append_assoc]
  have hstored : r'.errors = alone.report.errors ++ shown := by
    have hlt : r.errors.length < r.limit := Nat.lt_of_not_le (of_decide_eq_false hroom)
    rw [herrors, List.length_append, List.length_map, hwhole.limit, ← h.limit] at hlt
    rw [halone.errors, List.take_of_length_le (by omega)]
  refine ⟨hroom, h.level, h.levelAlone, ?_, ?_, ?_⟩
  · rw [halone.limit, hwhole.limit, h.limit]
  · rw [herrors, hstored]
  · rw [hwhole.totalErrors, halone.totalErrors, h.totalErrors, List.length_map]
    omega

end Findings

namespace Parse

open Findings

variable {α β : Type} {readable : String → Prop} {pre : DocPath} {before : Report}
variable {whole alone : Findings}

/-- A run in a longer document goes beside a run of the same part alone. -/
inductive Beside (pre : DocPath) (before : Report) (run run' : Option α × Findings) : Prop where
  /-- Some node of the longer document was not entered. -/
  | spoilt (h : run.2.Spoilt)
  /-- Both have found the same in the part. -/
  | joined (findings : Joins pre before run.2 run'.2) (result : run.1 = run'.1)

/-- A refusal on both sides. -/
theorem Beside.refusal {r r' : Report} {shown : List Diagnostic} {lost : Nat}
    (h : Joins pre before whole alone)
    (hwhole : whole.report.Receives r (shown.map fun d => d.under pre) lost)
    (halone : alone.report.Receives r' shown lost) :
    Beside pre before ((none, { whole with report := r }) : Option α × Findings)
      (none, { alone with report := r' }) := by
  cases hfull : r.isFull with
  | true => exact .spoilt (.full hfull)
  | false => exact .joined (h.receives hwhole halone hfull) rfl

/-- A text: what is wrong with it is the same under every path. -/
theorem Beside.text (s : String) (path : DocPath) (options : ParseOptions) (depth deeper : Nat)
    (hwhole : whole.Sound) (halone : alone.Sound) (h : Joins pre before whole alone) :
    Beside pre before (Parse.text s (path.under pre) options deeper whole)
      (Parse.text s path options depth alone) := by
  unfold Parse.text
  rw [Template.read_under]
  cases Template.read s path with
  | ok e => exact .joined h rfl
  | error r =>
    have hreceives := Report.receives_merge hwhole.bounded (r.under pre)
    rw [show (r.under pre).errors.length = r.errors.length from List.length_map ..] at hreceives
    exact .refusal h hreceives (Report.receives_merge halone.bounded r)

/-- A node: it is entered in the longer document only if it is alone. -/
theorem Beside.nested {p q : Parse α} (path : DocPath) {options : ParseOptions}
    {depth deeper : Nat} (hdepth : depth ≤ deeper) (h : Joins pre before whole alone)
    (hinner : Beside pre before (q options (deeper + 1) whole) (p options (depth + 1) alone)) :
    Beside pre before (Parse.nested (path.under pre) q options deeper whole)
      (Parse.nested path p options depth alone) := by
  unfold Parse.nested
  rw [if_neg (Bool.eq_false_iff.mp h.room), if_neg (Bool.eq_false_iff.mp h.roomAlone)]
  by_cases hdeep : options.maxDepth < deeper + 1
  · rw [if_pos hdeep, if_neg (Bool.eq_false_iff.mp h.level)]
    refine .spoilt (.deep (d := (Fault.tooDeep options.maxDepth).on (path.under pre)) ?_ rfl)
    simp [Report.addError, h.room]
  · rw [if_neg hdeep, if_neg (by omega)]
    exact hinner

/-- **Every parse does the same in a longer document and alone**, unless some node of the longer
    document is not entered. The part may stand deeper in the longer document. -/
theorem Moved.beside {p q : Parse α} (hpq : Moved readable pre p q) (options : ParseOptions)
    {depth deeper : Nat} (hdepth : depth ≤ deeper) (hwhole : whole.Sound) (halone : alone.Sound)
    (h : Joins pre before whole alone) :
    Beside pre before (q options deeper whole) (p options depth alone) := by
  induction hpq generalizing depth deeper whole alone with
  | pure a => exact .joined h rfl
  | @refuseEach α ds hds =>
    exact .refusal h (Report.receives_addErrors hwhole.bounded _)
      (Report.receives_addErrors halone.bounded ds)
  | @text s path _ => exact .text s path options depth deeper hwhole halone h
  | map f _ ih =>
    cases ih hdepth hwhole halone h with
    | spoilt hspoilt => exact .spoilt hspoilt
    | joined hfindings hresult => exact .joined hfindings (congrArg (Option.map f) hresult)
  | both hpq hpq' ih ih' =>
    have hbetween := hpq.built_under.accounts options deeper hwhole
    have hafter := hpq'.built_under.accounts options deeper hbetween.sound
    have hbetween' := hpq.built.accounts options depth halone
    cases ih hdepth hwhole halone h with
    | spoilt hspoilt =>
      have hstays := hspoilt.accounts hbetween.sound hafter
      exact .spoilt hstays
    | joined hfindings hresult =>
      cases ih' hdepth hbetween.sound hbetween'.sound hfindings with
      | spoilt hspoilt => exact .spoilt hspoilt
      | joined hfindings' hresult' =>
        refine .joined hfindings' ?_
        show Option.bind _ _ = Option.bind _ _
        rw [hresult, hresult']
  | @bind α β p q f g hpq hfg ih ihf =>
    have hbetween := hpq.built_under.accounts options deeper hwhole
    have hbetween' := hpq.built.accounts options depth halone
    have hfirst := ih hdepth hwhole halone h
    unfold Parse.bind
    rcases hrun : q options deeper whole with ⟨result, between⟩
    rcases hrun' : p options depth alone with ⟨result', between'⟩
    rw [hrun] at hbetween hfirst
    rw [hrun'] at hbetween' hfirst
    cases hfirst with
    | spoilt hspoilt =>
      cases result with
      | none => exact .spoilt hspoilt
      | some a =>
        have hafter := (hfg a).built_under.accounts options deeper hbetween.sound
        exact .spoilt (hspoilt.accounts hbetween.sound hafter)
    | joined hfindings hresult =>
      obtain rfl : result = result' := hresult
      cases result with
      | none => exact .joined hfindings rfl
      | some a => exact ihf a hdepth hbetween.sound hbetween'.sound hfindings
  | nested path _ ih =>
    exact .nested path hdepth h (ih (Nat.succ_le_succ hdepth) hwhole halone h)

end Parse

/-! ## 3. The children of a document -/

/-- The children of an array and of an object with ordinary fields only, each with the step that
    leads to it. -/
inductive Json.Siblings : Json → List (Segment × Json) → Prop where
  | items (items : List Json) :
      Siblings (.array items) (items.zipIdx.map fun item => (.index item.2, item.1))
  | fields {fields : List (String × Json)}
      (h : ∀ field ∈ fields, Directive.looksLike field.1 = false) :
      Siblings (.object fields) (fields.map fun field => (.field field.1, field.2))

namespace Parsed

open Findings Parse

variable {options : ParseOptions} {document : Json}

/-- The report of a child that is parsed alone, under the step that leads to it. -/
def reportOfChild (options : ParseOptions) (child : Segment × Json) : Report :=
  (ofDocument options child.2).report.under ⟨[child.1]⟩

/-- What was found after the parse of some children: what each of them reports alone, one after the
    other. -/
inductive Gathers (options : ParseOptions) (children : List (Segment × Json))
    (found after : Findings) : Prop where
  | spoilt (h : after.Spoilt)
  | gathered (room : after.report.isFull = false) (level : after.tooDeep = false)
      (errors : after.report.errors = found.report.errors ++
        children.flatMap fun child => (reportOfChild options child).errors)
      (totalErrors : after.report.totalErrors = found.report.totalErrors +
        (children.map fun child => (ofDocument options child.2).report.totalErrors).sum)

/-- What holds of the findings before a child is parsed. -/
structure Ready (options : ParseOptions) (found : Findings) : Prop extends found.Sound where
  limit : found.report.limit = max options.maxErrors 1
  isFull : found.report.isFull = false
  level : found.tooDeep = false

/-- **A child among its siblings reports what it reports alone.** -/
theorem gathers_child {found : Findings} (h : Ready options found) (step : Segment) (child : Json)
    (depth : Nat) : Gathers options [(step, child)] found
      (Outline.parse ⟨[step]⟩ (Outline.ofJson child) options depth found).2 := by
  have hmoved : Moved (fun _ => True) ⟨[step]⟩ (Outline.parse .root (Outline.ofJson child))
      (Outline.parse ⟨[step]⟩ (Outline.ofJson child)) :=
    .node ⟨[step]⟩ _ .root fun _ _ => trivial
  have hjoins : Joins ⟨[step]⟩ found.report found
      ⟨Report.withLimit options.maxErrors, false⟩ :=
    ⟨h.isFull, h.level, rfl, h.limit.symm, (List.append_nil _).symm, rfl⟩
  cases hmoved.beside options (Nat.zero_le depth) h.toSound (sound_start options.maxErrors) hjoins
    with
  | spoilt hspoilt => exact .spoilt hspoilt
  | joined hfindings _ =>
    refine .gathered hfindings.room hfindings.level ?_ ?_
    · rw [hfindings.errors, List.flatMap_singleton]
      rfl
    · rw [hfindings.totalErrors, List.map_singleton, List.sum_singleton]
      rfl

/-- A child, and what is parsed behind it. -/
theorem gathers_both {α : Type} {found : Findings} (h : Ready options found) (step : Segment)
    (child : Json) {depth : Nat} {p : Parse α} (hp : p.Built fun _ => True)
    {rest : List (Segment × Json)}
    (hrest : ∀ between, Ready options between →
      Gathers options rest between (p options depth between).2) :
    Gathers options ((step, child) :: rest) found
      (((Outline.parse ⟨[step]⟩ (Outline.ofJson child)).both p) options depth found).2 := by
  have hchild : (Outline.parse ⟨[step]⟩ (Outline.ofJson child)).Built fun _ => True :=
    (Inner.node ⟨[step]⟩ (Outline.ofJson child)).built
  have hbetween := hchild.accounts options depth h.toSound
  have hafter := hp.accounts options depth hbetween.sound
  show Gathers options ((step, child) :: rest) found (p options depth
    (Outline.parse ⟨[step]⟩ (Outline.ofJson child) options depth found).2).2
  cases gathers_child h step child depth with
  | spoilt hspoilt => exact .spoilt (hspoilt.accounts hbetween.sound hafter)
  | gathered hroom hlevel herrors htotal =>
    cases hrest _ ⟨hbetween.sound, hbetween.limit.trans h.limit, hroom, hlevel⟩ with
    | spoilt hspoilt => exact .spoilt hspoilt
    | gathered hroom' hlevel' herrors' htotal' =>
      refine .gathered hroom' hlevel' ?_ ?_
      · rw [herrors', herrors, List.flatMap_singleton, List.flatMap_cons, List.append_assoc]
      · rw [htotal', htotal, List.map_singleton, List.sum_singleton, List.map_cons, List.sum_cons,
          Nat.add_assoc]

theorem gathers_items (items : List Json) (i : Nat) {found : Findings} (h : Ready options found)
    (depth : Nat) :
    Gathers options ((items.zipIdx i).map fun item => (.index item.2, item.1)) found
      (parseItems .root i (Outline.ofJsonItems items) options depth found).2 := by
  induction items generalizing i found with
  | nil =>
    rw [Outline.ofJsonItems, parseItems]
    exact .gathered h.isFull h.level (List.append_nil _).symm rfl
  | cons item rest ih =>
    rw [Outline.ofJsonItems, parseItems]
    exact gathers_both h (.index i) item (Inner.items .root (i + 1) _).built fun _ hbetween =>
      ih (i + 1) hbetween

theorem gathers_fields {fields : List (String × Json)}
    (hfields : ∀ field ∈ fields, Directive.looksLike field.1 = false) {found : Findings}
    (h : Ready options found) (depth : Nat) :
    Gathers options (fields.map fun field => (.field field.1, field.2)) found
      (parseEntries .root (Outline.entriesOf fields) options depth found).2 := by
  induction fields generalizing found with
  | nil =>
    rw [Outline.entriesOf, parseEntries]
    exact .gathered h.isFull h.level (List.append_nil _).symm rfl
  | cons field rest ih =>
    obtain ⟨name, child⟩ := field
    obtain ⟨hname, hrest⟩ := List.forall_mem_cons.mp hfields
    rw [Outline.entriesOf, if_neg (Json.ne_container_of_not_looksLike hname),
      if_neg (Bool.eq_false_iff.mp hname), parseEntries]
    exact gathers_both h (.field name) child (Inner.entries .root _).built fun _ hbetween =>
      ih hrest hbetween

/-- A document that is entered. -/
theorem gathers_nested {children : List (Segment × Json)} {found : Findings}
    (h : Ready options found) {p : Parse Expr}
    (hp : Gathers options children found (p options 1 found).2) :
    Gathers options children found (nested .root p options 0 found).2 := by
  unfold Parse.nested
  rw [if_neg (Bool.eq_false_iff.mp h.isFull)]
  by_cases hdeep : options.maxDepth < 0 + 1
  · rw [if_pos hdeep, if_neg (Bool.eq_false_iff.mp h.level)]
    refine .spoilt (.deep (d := (Fault.tooDeep options.maxDepth).on .root) ?_ rfl)
    simp [Report.addError, h.isFull]
  · rw [if_neg hdeep]
    exact hp

/-- **The children of a document report one after the other** what they report alone. -/
theorem gathers_of_siblings {children : List (Segment × Json)} (h : document.Siblings children) :
    Gathers options children ⟨Report.withLimit options.maxErrors, false⟩
      (run options document).2 := by
  have hready : Ready options ⟨Report.withLimit options.maxErrors, false⟩ :=
    ⟨sound_start options.maxErrors, rfl,
      decide_eq_false (Nat.not_le_of_lt (sound_start options.maxErrors).room), rfl⟩
  unfold run
  cases h with
  | items items =>
    rw [Outline.ofJson, Outline.parse]
    exact gathers_nested hready (gathers_items items 0 hready 1)
  | fields hfields =>
    have hbranch := gathers_fields hfields hready 1
    rw [Outline.ofJson, Outline.parse, Json.ofJsonFields_of_ordinary hfields, Block.parse.eq_def]
    exact gathers_nested hready hbranch

/-- A parse succeeds exactly if it counts no error. -/
theorem exists_toExcept_iff (options : ParseOptions) (document : Json) :
    (∃ e, (ofDocument options document).toExcept = .ok e) ↔
      (ofDocument options document).report.totalErrors = 0 := by
  have hnone := expr_eq_none_iff options document
  simp only [toExcept_eq_ok_iff]
  cases hexpr : (ofDocument options document).expr with
  | none =>
    have hpos := hnone.mp hexpr
    simp only [reduceCtorEq, exists_false, false_iff]
    omega
  | some e =>
    have hzero : ¬0 < (ofDocument options document).report.totalErrors := fun hpos => by
      rw [hnone.mpr hpos] at hexpr
      cases hexpr
    simp only [Option.some.injEq, exists_eq', true_iff]
    omega

/-- **Siblings are diagnosed independently.** Let the report of an array, or of an object with
    ordinary fields only, have room in the end, and let no node have been too deep. Then what is
    reported is what each child reports when it is parsed alone, one after the other, each under its
    index or name; what is counted is what they count together; and the parse succeeds exactly if
    it succeeds for every child. -/
theorem errors_of_siblings {children : List (Segment × Json)} (h : document.Siblings children)
    (hroom : (ofDocument options document).report.errors.length < max 1 options.maxErrors)
    (hshallow : ∀ d ∈ (ofDocument options document).report.errors, d.code ≠ .structuralLimit) :
    (ofDocument options document).report.errors = (children.flatMap fun child =>
        (ofDocument options child.2).report.errors.map fun d => d.under ⟨[child.1]⟩) ∧
      (ofDocument options document).report.totalErrors =
        (children.map fun child => (ofDocument options child.2).report.totalErrors).sum ∧
      ((∃ e, (ofDocument options document).toExcept = .ok e) ↔
        ∀ child ∈ children, ∃ e, (ofDocument options child.2).toExcept = .ok e) := by
  have hlimit := (accounts_run options document).limit
  have hgathers : Gathers options children _ (run options document).2 := gathers_of_siblings h
  rw [report_ofDocument] at hroom hshallow
  cases hgathers with
  | spoilt hspoilt =>
    cases hspoilt with
    | full hfull =>
      have hle : (run options document).2.report.limit ≤ _ := of_decide_eq_true hfull
      rw [hlimit] at hle
      exact absurd hroom (Nat.not_lt.mpr (Nat.max_comm _ _ ▸ hle))
    | deep hmem hcode => exact absurd hcode (hshallow _ hmem)
  | gathered _ _ herrors htotal =>
    have hsum : (ofDocument options document).report.totalErrors =
        (children.map fun child => (ofDocument options child.2).report.totalErrors).sum :=
      htotal.trans (Nat.zero_add _)
    refine ⟨herrors, hsum, ?_⟩
    rw [exists_toExcept_iff, hsum, List.sum_eq_zero_iff_forall_eq_nat]
    simp only [List.forall_mem_map, exists_toExcept_iff]

/-- Two faulty elements around a sound one, and the places of what is reported. -/
theorem errors_of_siblings_two_faulty :
    let document : Json := .array [.text "$\x7b\x7d", .null, .object [("a", .text "$\x7bx\x7d")]]
    let children : List (Segment × Json) :=
      [(.index 0, .text "$\x7b\x7d"), (.index 1, .null),
        (.index 2, .object [("a", .text "$\x7bx\x7d")])]
    let alone (tree : Json) := ofDocument .default tree
    (alone document).report.errors = (children.flatMap fun child =>
        (alone child.2).report.errors.map fun d => d.under ⟨[child.1]⟩) ∧
      (alone document).report.totalErrors =
        (children.map fun child => (alone child.2).report.totalErrors).sum ∧
      ((∃ e, (alone document).toExcept = .ok e) ↔
        ∀ child ∈ children, ∃ e, (alone child.2).toExcept = .ok e) ∧
      (alone document).report.errors.map Diagnostic.path =
        [⟨[.index 0]⟩, ⟨[.index 2, .field "a"]⟩] := by
  intro document children alone
  have hroom : (alone document).report.errors.length < max 1 ParseOptions.default.maxErrors := by
    decide +kernel
  have hshallow : ∀ d ∈ (alone document).report.errors, d.code ≠ .structuralLimit := by
    decide +kernel
  have hpaths : (alone document).report.errors.map Diagnostic.path =
      [⟨[.index 0]⟩, ⟨[.index 2, .field "a"]⟩] := by
    decide +kernel
  obtain ⟨herrors, htotal, hok⟩ := errors_of_siblings (.items _) hroom hshallow
  exact ⟨herrors, htotal, hok, hpaths⟩

end Parsed

end Stencil
