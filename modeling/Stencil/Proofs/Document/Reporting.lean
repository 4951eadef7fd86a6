import Stencil.Engine
import Stencil.Proofs.Document.Assembly
import Stencil.Proofs.Report

/-!
# What a parse reports

A parse that has no result has reported why, then or before. This file fixes

* what is reported of a text that cannot be read (`Template.errors_ne_nil_of_read`,
  `Template.lost_of_read`): at least one error; and errors are lost only if the markers of the text
  have more than the usual limit of them;
* what every parse does with the findings (`Parse.Accounts`), by the ways in which parses are put
  together: it shows errors to the report; it has a result and leaves the findings as they are, or
  errors have been counted;
* what the report of a document says: whether there is an expression, and how many errors it
  stores.
-/

namespace Stencil

/-! ## 1. Texts that cannot be read -/

namespace Template

/-- The report of a text that cannot be read is that of its markers, or it holds everything that is
    wrong with its calls. -/
theorem report_of_read {s : String} {path : DocPath} {r : Report} (h : read s path = .error r) :
    (r = (Lexed.ofText s path).report ∧ 0 < r.totalErrors) ∨
      ((Lexed.ofText s path).report.hasErrors = false ∧ ∃ ds, ds ≠ [] ∧
        ds = (pieces path (runs none (Lexed.ofText s path).tokens)).1 ∧
        r = Report.ofErrors ds) := by
  unfold read at h
  split at h
  · dsimp only at h
    split at h
    · next herrors =>
      obtain rfl := Except.error.inj h
      exact .inl ⟨rfl, of_decide_eq_true herrors⟩
    · next hclosed =>
      rcases hpieces : pieces path (runs none (Lexed.ofText s path).tokens) with ⟨wrong, right⟩
      rw [hpieces] at h
      cases wrong with
      | nil => cases h
      | cons d rest =>
        exact .inr ⟨Bool.eq_false_iff.mpr hclosed, d :: rest, List.cons_ne_nil d rest, rfl,
          (Except.error.inj h).symm⟩
  · cases h

/-- The number of faults of the markers of a text does not depend on where the text stands. -/
theorem totalErrors_ofText (s : String) (path : DocPath) :
    (Lexed.ofText s path).report.totalErrors = (Lexed.ofText s .root).report.totalErrors := by
  simp [Lexed.ofText, Lexeme.faults]

theorem errors_ofText (s : String) (path : DocPath) : (Lexed.ofText s path).report.errors.length =
    min Report.defaultLimit (Lexed.ofText s path).report.totalErrors := by
  have hempty : Report.empty.errors.length ≤ Report.empty.limit := Nat.zero_le _
  simp only [Lexed.ofText, Report.errors_addErrors hempty, Report.totalErrors_addErrors]
  rw [List.length_take]
  simp [Report.empty, Report.withLimit, Report.defaultLimit]

theorem errors_ofErrors (ds : List Diagnostic) : (Report.ofErrors ds).errors = ds := by
  have hempty : (Report.withLimit ds.length).errors.length ≤ (Report.withLimit ds.length).limit :=
    Nat.zero_le _
  rw [Report.ofErrors, Report.errors_addErrors hempty]
  exact List.take_of_length_le (Nat.le_max_left _ _)

theorem totalErrors_ofErrors (ds : List Diagnostic) :
    (Report.ofErrors ds).totalErrors = ds.length := by
  simp [Report.ofErrors, Report.withLimit]

variable {s : String} {path : DocPath} {r : Report}

/-- **Of a text that cannot be read, an error is stored.** -/
theorem errors_ne_nil_of_read (h : read s path = .error r) : r.errors ≠ [] := by
  rcases report_of_read h with ⟨rfl, hcount⟩ | ⟨-, ds, hds, -, rfl⟩
  · rw [← List.length_pos_iff, errors_ofText]
    exact Nat.lt_min.mpr ⟨by decide, hcount⟩
  · rw [errors_ofErrors]
    exact hds

/-- **Of a text that cannot be read, errors are lost** only beyond the usual limit. -/
theorem lost_of_read (h : read s path = .error r)
    (hlost : 0 < r.totalErrors - r.errors.length) : Report.defaultLimit ≤ r.errors.length ∧
      Report.defaultLimit < (Lexed.ofText s .root).report.totalErrors := by
  rcases report_of_read h with ⟨rfl, -⟩ | ⟨-, ds, -, -, rfl⟩
  · rw [← totalErrors_ofText s path]
    rw [errors_ofText] at hlost ⊢
    omega
  · rw [errors_ofErrors, totalErrors_ofErrors] at hlost
    omega

end Template

/-! ## 2. Findings -/

namespace Findings

/-- What holds of the findings at every time: the report takes at least one error, it stores no more
    than it takes and counts, and excess of depth was counted. -/
structure Sound (found : Findings) : Prop where
  room : 0 < found.report.limit
  bounded : found.report.errors.length ≤ found.report.limit
  counted : found.report.errors.length ≤ found.report.totalErrors
  deep : found.tooDeep = true → 0 < found.report.totalErrors

theorem sound_start (limit : Nat) : Sound ⟨Report.withLimit limit, false⟩ where
  room := Nat.lt_of_lt_of_le Nat.one_pos (Nat.le_max_right limit 1)
  bounded := Nat.zero_le _
  counted := Nat.zero_le _
  deep h := by cases h

variable {found : Findings} {r : Report} {shown : List Diagnostic} {lost : Nat}

/-- Errors that are shown leave sound findings sound, whatever is noted of the depth. -/
theorem Sound.receives (h : found.Sound) (hr : found.report.Receives r shown lost)
    (hshown : shown ≠ []) (tooDeep : Bool) : Sound ⟨r, tooDeep⟩ where
  room := hr.limit ▸ h.room
  bounded := hr.bounded
  counted := hr.length_le_totalErrors h.counted
  deep _ := by
    have hpos := List.length_pos_iff.mpr hshown
    rw [hr.totalErrors]
    omega

/-- A full report has counted errors. -/
theorem Sound.totalErrors_of_isFull (h : found.Sound) (hfull : found.report.isFull = true) :
    0 < found.report.totalErrors :=
  have hlimit : found.report.limit ≤ found.report.errors.length := of_decide_eq_true hfull
  Nat.lt_of_lt_of_le h.room (Nat.le_trans hlimit h.counted)

/-- The findings that a parse can have made, under a limit of errors, after some of its parts. -/
inductive Reached (options : ParseOptions) : Findings → Prop where
  /-- Nothing was parsed. -/
  | start : Reached options ⟨Report.withLimit options.maxErrors, false⟩
  /-- One more part was parsed, at some depth. -/
  | next {α : Type} {p : Parse α} {found : Findings} (depth : Nat)
      (hp : p.Built fun _ => True) (h : Reached options found) :
      Reached options (p options depth found).2

end Findings

/-! ## 3. What a parse does with the findings -/

namespace Parse

variable {α β γ : Type} {readable : String → Prop}

/-- What a run does that starts with some findings:

    * it shows errors to the report, and it loses errors only after as many as the usual limit were
      shown, of a text whose markers have more faults than that;
    * it leaves sound findings;
    * if it has no result, errors have been counted;
    * if it has a result, it has found nothing. -/
structure Accounts (readable : String → Prop) (found : Findings) (run : Option α × Findings) :
    Prop where
  receives : ∃ shown lost, found.report.Receives run.2.report shown lost ∧
    (0 < lost → Report.defaultLimit ≤ shown.length ∧
      ∃ s, readable s ∧ Report.defaultLimit < (Lexed.ofText s .root).report.totalErrors)
  sound : run.2.Sound
  refuses : run.1 = none → 0 < run.2.report.totalErrors
  accepts : ∀ a, run.1 = some a → run.2 = found

variable {found : Findings}

theorem Accounts.limit {run : Option α × Findings} (h : Accounts readable found run) :
    run.2.report.limit = found.report.limit := by
  obtain ⟨_, _, hreceives, -⟩ := h.receives
  exact hreceives.limit

/-- A report that has room in the end had room in the beginning. -/
theorem Accounts.isFull_eq_false {run : Option α × Findings} (h : Accounts readable found run)
    (hfound : found.Sound) (hroom : run.2.report.isFull = false) :
    found.report.isFull = false := by
  obtain ⟨_, _, hreceives, -⟩ := h.receives
  by_contra hfull
  rw [hreceives.isFull hfound.bounded (Bool.of_not_eq_false hfull)] at hroom
  cases hroom

theorem accounts_some (h : found.Sound) (a : α) : Accounts readable found (some a, found) where
  receives := ⟨[], 0, Report.receives_refl h.bounded, fun hlost => absurd hlost (by omega)⟩
  sound := h
  refuses hnone := by cases hnone
  accepts _ _ := rfl

/-- A node that is not entered, and of which nothing is reported. -/
theorem accounts_silent (h : found.Sound) (hcount : 0 < found.report.totalErrors) :
    Accounts readable found ((none, found) : Option α × Findings) where
  receives := ⟨[], 0, Report.receives_refl h.bounded, fun hlost => absurd hlost (by omega)⟩
  sound := h
  refuses _ := hcount
  accepts _ hsome := by cases hsome

/-- A refusal that shows errors and loses none. -/
theorem accounts_refusal (h : found.Sound) {ds : List Diagnostic} (hds : ds ≠ [])
    (tooDeep : Bool) : Accounts readable found
      ((none, ⟨found.report.addErrors ds, tooDeep⟩) : Option α × Findings) where
  receives :=
    ⟨ds, 0, Report.receives_addErrors h.bounded ds, fun hlost => absurd hlost (by omega)⟩
  sound := h.receives (Report.receives_addErrors h.bounded ds) hds tooDeep
  refuses _ := by
    have hpos := List.length_pos_iff.mpr hds
    rw [Report.totalErrors_addErrors]
    omega
  accepts _ hsome := by cases hsome

/-- The refusal of a text takes over what its report shows. -/
theorem accounts_text (h : found.Sound) {s : String} (path : DocPath) (hs : readable s)
    (options : ParseOptions) (depth : Nat) :
    Accounts readable found (Parse.text s path options depth found) := by
  unfold Parse.text
  cases hread : Template.read s path with
  | ok e => exact accounts_some h e
  | error r =>
    have hreceives := Report.receives_merge h.bounded r
    have hshown := Template.errors_ne_nil_of_read hread
    refine ⟨⟨_, _, hreceives, fun hlost => ?_⟩, h.receives hreceives hshown found.tooDeep,
      fun _ => ?_, fun _ hsome => by cases hsome⟩
    · obtain ⟨hlength, hfaults⟩ := Template.lost_of_read hread hlost
      exact ⟨hlength, s, hs, hfaults⟩
    · have hpos := List.length_pos_iff.mpr hshown
      show 0 < (found.report.merge r).totalErrors
      rw [hreceives.totalErrors]
      omega

/-- **Two runs one after the other.** What they have together is a result exactly if each of them
    has one. -/
theorem Accounts.trans {first : Option α × Findings} {second : Option β × Findings}
    (h : Accounts readable found first) (h' : Accounts readable first.2 second)
    {result : Option γ} (hnone : result = none → first.1 = none ∨ second.1 = none)
    (hsome : ∀ c, result = some c → (∃ a, first.1 = some a) ∧ ∃ b, second.1 = some b) :
    Accounts readable found (result, second.2) := by
  obtain ⟨shown, lost, hreceives, hlost⟩ := h.receives
  obtain ⟨more, lost', hreceives', hlost'⟩ := h'.receives
  refine ⟨⟨_, _, hreceives.trans hreceives', fun hpos => ?_⟩, h'.sound, fun hresult => ?_,
    fun c hresult => ?_⟩
  · rw [List.length_append]
    rcases Nat.eq_zero_or_pos lost with hzero | hfirst
    · obtain ⟨hlength, htext⟩ := hlost' (by omega)
      exact ⟨by omega, htext⟩
    · obtain ⟨hlength, htext⟩ := hlost hfirst
      exact ⟨by omega, htext⟩
  · rcases hnone hresult with hfirst | hsecond
    · have hcount := h.refuses hfirst
      rw [hreceives'.totalErrors]
      omega
    · exact h'.refuses hsecond
  · obtain ⟨⟨a, ha⟩, b, hb⟩ := hsome c hresult
    exact (h'.accepts b hb).trans (h.accepts a ha)

/-- **Every parse accounts for what it finds**: one case for each way of putting parses together. -/
theorem Built.accounts {p : Parse α} (hp : Built readable p) (options : ParseOptions)
    (depth : Nat) (h : found.Sound) : Accounts readable found (p options depth found) := by
  induction hp generalizing depth found with
  | pure a => exact accounts_some h a
  | refuseEach hds => exact accounts_refusal h hds found.tooDeep
  | text path hs => exact accounts_text h path hs options depth
  | @map α β p f _ ih =>
    obtain ⟨hreceives, hsound, hrefuses, haccepts⟩ := ih depth h
    refine ⟨hreceives, hsound, fun hnone => ?_, fun b hb => ?_⟩
    · exact hrefuses (Option.map_eq_none_iff.mp hnone)
    · obtain ⟨a, ha, -⟩ := Option.map_eq_some_iff.mp hb
      exact haccepts a ha
  | @both α β p q _ _ ihp ihq =>
    have hfirst := ihp depth h
    refine hfirst.trans (ihq depth hfirst.sound) (fun hnone => ?_) fun c hc => ?_
    · cases hresult : (p options depth found).1 with
      | none => exact .inl rfl
      | some a =>
        rw [hresult] at hnone
        exact .inr (Option.map_eq_none_iff.mp hnone)
    · obtain ⟨a, ha, hrest⟩ := Option.bind_eq_some_iff.mp hc
      obtain ⟨b, hb, -⟩ := Option.map_eq_some_iff.mp hrest
      exact ⟨⟨a, ha⟩, b, hb⟩
  | @bind α β p f _ _ ihp ihf =>
    have hfirst := ihp depth h
    unfold Parse.bind
    rcases hrun : p options depth found with ⟨_ | a, between⟩
    · rw [hrun] at hfirst
      exact ⟨hfirst.receives, hfirst.sound, fun _ => hfirst.refuses rfl, fun _ hb => by cases hb⟩
    · rw [hrun] at hfirst
      obtain rfl := hfirst.accepts a rfl
      exact ihf a depth h
  | @nested α p path _ ih =>
    unfold Parse.nested
    split
    · next hfull => exact accounts_silent h (h.totalErrors_of_isFull hfull)
    · split
      · split
        · next hdeep => exact accounts_silent h (h.deep hdeep)
        · exact accounts_refusal h (List.cons_ne_nil _ []) true
      · exact ih (depth + 1) h

end Parse

theorem Findings.Reached.sound {options : ParseOptions} {found : Findings}
    (h : Reached options found) : found.Sound := by
  induction h with
  | start => exact sound_start options.maxErrors
  | next depth hp _ ih => exact (hp.accounts options depth ih).sound

/-! ## 4. The parses of the parser -/

namespace Parse

/-- The parses that the parse of a document calls: of nodes, objects, directives, texts and
    conditions, of their lists, and of what is nested one level deeper. -/
inductive Inner : {α : Type} → Parse α → Prop where
  | node (path : DocPath) (node : Outline) : Inner (Outline.parse path node)
  | items (path : DocPath) (i : Nat) (items : List Outline) : Inner (parseItems path i items)
  | object (path : DocPath) (block : Block) : Inner (Block.parse path block)
  | entries (path : DocPath) (entries : List BlockEntry) : Inner (parseEntries path entries)
  | clauses (path : DocPath) (node : Outline) : Inner (parseClauses path node)
  | clauseItems (path : DocPath) (i : Nat) (items : List Outline) :
      Inner (parseClauseItems path i items)
  | branches (path : DocPath) (node : Outline) : Inner (parseBranches path node)
  | branchItems (path : DocPath) (i : Nat) (items : List Outline) :
      Inner (parseBranchItems path i items)
  | text (s : String) (path : DocPath) : Inner (text s path)
  | predicate (path : DocPath) (tree : Json) : Inner (Condition.predicate path tree)
  | condition (path : DocPath) (fields : List (String × Json)) :
      Inner (Condition.object path fields)
  | operators (path : DocPath) (fields : List (String × Json)) :
      Inner (Condition.operators path fields)
  | comparisons (operator : String) (path : DocPath) (fields : List (String × Json)) :
      Inner (Condition.entries operator path fields)
  | comparison (operator : String) (path : DocPath) (name : String) (tree : Json) :
      Inner (Condition.entry operator path name tree)
  | alternatives (key : Key) (operator : String) (path : DocPath) (i : Nat) (trees : List Json) :
      Inner (Condition.alternatives key operator path i trees)
  | literal (path : DocPath) (tree : Json) : Inner (Condition.literal path tree)
  | conjunction (path : DocPath) (found : List Expr) : Inner (Condition.conjunction path found)
  | nested {α : Type} {p : Parse α} (path : DocPath) (hp : Inner p) : Inner (nested path p)
  | map {α β : Type} {p : Parse α} (f : α → β) (hp : Inner p) : Inner (p.map f)

theorem Inner.built {α : Type} {p : Parse α} (h : p.Inner) : p.Built fun _ => True := by
  have hall : ∀ texts : List String, ∀ s ∈ texts, True := fun _ _ _ => trivial
  induction h with
  | node path node => exact (Moved.node .root node path (hall _)).built
  | items path i items => exact (Moved.items .root items path i (hall _)).built
  | object path block => exact (Moved.object .root block path (hall _)).built
  | entries path entries => exact (Moved.entriesOf .root entries path (hall _)).built
  | clauses path node => exact (Moved.clausesOf .root node path (hall _)).built
  | clauseItems path i items => exact (Moved.clauseItems .root items path i (hall _)).built
  | branches path node => exact (Moved.branchesOf .root node path (hall _)).built
  | branchItems path i items => exact (Moved.branchItems .root items path i (hall _)).built
  | text s path => exact .text path trivial
  | predicate path tree => exact (Moved.predicate .root path (hall _)).built
  | condition path fields => exact (Moved.condition .root path fields).built
  | operators path fields => exact (Moved.operators .root path fields).built
  | comparisons operator path fields => exact (Moved.entries .root operator path fields).built
  | comparison operator path name tree =>
    exact (Moved.entry .root operator path name tree).built
  | alternatives key operator path i trees =>
    exact (Moved.alternatives .root key operator path i trees).built
  | literal path tree => exact (Moved.literal .root path tree).built
  | conjunction path found => exact (Moved.conjunction .root path found).built
  | nested path _ ih => exact ih.nested path
  | map f _ ih => exact ih.map f

end Parse

/-! ## 5. Documents -/

namespace Parsed

open Parse

variable (options : ParseOptions) (document : Json)

/-- The run that parses a document. -/
def run : Option Expr × Findings :=
  Outline.parse .root (Outline.ofJson document) options 0
    ⟨Report.withLimit options.maxErrors, false⟩

theorem built_ofJson :
    (Outline.parse .root (Outline.ofJson document)).Built fun s => s ∈ document.texts :=
  (Moved.node .root _ .root fun _ hs => Outline.mem_texts_ofJson hs).built

theorem accounts_run : Accounts (fun s => s ∈ document.texts)
    ⟨Report.withLimit options.maxErrors, false⟩ (run options document) :=
  (built_ofJson document).accounts options 0 (Findings.sound_start options.maxErrors)

theorem report_ofDocument :
    (ofDocument options document).report = (run options document).2.report := rfl

/-- That nothing was reported is said twice: a run that has a result has found nothing. -/
theorem expr_ofDocument : (ofDocument options document).expr = (run options document).1 := by
  show (if (run options document).2.report.hasErrors then none else (run options document).1) = _
  cases hresult : (run options document).1 with
  | none => exact ite_self none
  | some e =>
    rw [(accounts_run options document).accepts e hresult]
    rfl

/-- **There is an expression exactly if no error was counted.** -/
theorem expr_eq_none_iff : (ofDocument options document).expr = none ↔
    0 < (ofDocument options document).report.totalErrors := by
  rw [expr_ofDocument, report_ofDocument]
  constructor
  · exact (accounts_run options document).refuses
  · intro hcount
    cases hresult : (run options document).1 with
    | none => rfl
    | some e =>
      rw [(accounts_run options document).accepts e hresult] at hcount
      exact absurd hcount (Nat.lt_irrefl 0)

theorem toExcept_eq_ok_iff {e : Expr} : (ofDocument options document).toExcept = .ok e ↔
    (ofDocument options document).expr = some e := by
  have hnone := expr_eq_none_iff options document
  unfold toExcept
  cases hexpr : (ofDocument options document).expr with
  | none => simp
  | some found =>
    rw [hexpr] at hnone
    have hclean : (ofDocument options document).report.hasErrors = false :=
      decide_eq_false fun hcount => by cases hnone.mpr hcount
    simp [hclean]

theorem toExcept_eq_error_iff {r : Report} : (ofDocument options document).toExcept = .error r ↔
    (ofDocument options document).expr = none ∧ r = (ofDocument options document).report := by
  cases hexpr : (ofDocument options document).expr with
  | none => simp [toExcept, hexpr, eq_comm]
  | some e => simp [(toExcept_eq_ok_iff options document).mpr hexpr]

/-- What is stored, of all that was shown, and what was counted. -/
theorem exists_shown : ∃ (shown : List Diagnostic) (lost : Nat),
    (ofDocument options document).report.errors = shown.take (max 1 options.maxErrors) ∧
      (ofDocument options document).report.totalErrors = shown.length + lost ∧
        (0 < lost → Report.defaultLimit ≤ shown.length ∧ ∃ s ∈ document.texts,
          Report.defaultLimit < (Lexed.ofText s .root).report.totalErrors) := by
  obtain ⟨shown, lost, hreceives, hlost⟩ := (accounts_run options document).receives
  refine ⟨shown, lost, ?_, ?_, hlost⟩
  · rw [report_ofDocument, hreceives.errors, Nat.max_comm]
    rfl
  · rw [report_ofDocument, hreceives.totalErrors]
    exact congrArg (· + lost) (Nat.zero_add _)

theorem length_errors_le :
    (ofDocument options document).report.errors.length ≤ max 1 options.maxErrors := by
  obtain ⟨shown, lost, herrors, -⟩ := exists_shown options document
  rw [herrors]
  exact List.length_take_le _ _

/-- What was counted at all, was stored at least once. -/
theorem errors_ne_nil (h : 0 < (ofDocument options document).report.totalErrors) :
    (ofDocument options document).report.errors ≠ [] := by
  obtain ⟨shown, lost, herrors, htotal, hlost⟩ := exists_shown options document
  have hshown : 0 < shown.length := by
    rcases Nat.eq_zero_or_pos lost with hzero | hpos
    · omega
    · exact Nat.lt_of_lt_of_le (by decide) (hlost hpos).1
  rw [← List.length_pos_iff, herrors, List.length_take]
  omega

/-- What the report of a document says about its parse:

    * there is an expression exactly if no error was counted;
    * a parse that fails gives a report with at least one error, and no more than the limit, which
      is at least one;
    * so the report has a first error, and the failure has a code;
    * and when any of the parses that are called on the way has no result, an error has been
      counted, whatever was found before. -/
structure Accounted : Prop where
  expr_iff : (∃ e, (ofDocument options document).expr = some e) ↔
    (ofDocument options document).report.totalErrors = 0
  stored : ∀ r, (ofDocument options document).toExcept = .error r →
    r = (ofDocument options document).report ∧ 1 ≤ r.errors.length ∧
      r.errors.length ≤ max 1 options.maxErrors
  code : ∀ r, (ofDocument options document).toExcept = .error r →
    ∃ d, r.first? = some d ∧ (Failure.parse r).code? = some d.code
  inner : ∀ {α : Type} {p : Parse α} {found : Findings} (depth : Nat), p.Inner →
    found.Reached options → (p options depth found).1 = none →
      0 < (p options depth found).2.report.totalErrors

/-- **The verdict on a document and the report agree.** -/
theorem accounted : Accounted options document where
  expr_iff := by
    rw [← Option.ne_none_iff_exists', Ne, expr_eq_none_iff]
    omega
  stored r h := by
    obtain ⟨hnone, rfl⟩ := (toExcept_eq_error_iff options document).mp h
    have hstored := errors_ne_nil options document ((expr_eq_none_iff options document).mp hnone)
    exact ⟨rfl, List.length_pos_iff.mpr hstored, length_errors_le options document⟩
  code r h := by
    obtain ⟨hnone, rfl⟩ := (toExcept_eq_error_iff options document).mp h
    have hstored := errors_ne_nil options document ((expr_eq_none_iff options document).mp hnone)
    obtain ⟨d, rest, hcons⟩ := List.exists_cons_of_ne_nil hstored
    have hfirst : (ofDocument options document).report.first? = some d := by
      rw [Report.first?, hcons, List.head?_cons]
    exact ⟨d, hfirst, by rw [Failure.code?, hfirst, Option.map_some]⟩
  inner depth hp hfound hnone :=
    (hp.built.accounts options depth hfound.sound).refuses hnone

variable {options document}

/-- **As many errors are stored as are counted, up to the limit**, if the limit is not above the
    usual one, or if no text of the document has markers with more faults than that: the errors of
    the markers of a text are collected up to the usual limit, whatever the limit of the parse
    is. -/
theorem stored_of_limit (h : options.maxErrors ≤ Report.defaultLimit ∨
      ∀ s ∈ document.texts,
        (Lexed.ofText s .root).report.totalErrors ≤ Report.defaultLimit) :
    (ofDocument options document).report.errors.length =
      min (max 1 options.maxErrors) (ofDocument options document).report.totalErrors := by
  obtain ⟨shown, lost, herrors, htotal, hlost⟩ := exists_shown options document
  rw [herrors, htotal, List.length_take]
  rcases Nat.eq_zero_or_pos lost with rfl | hpos
  · rw [Nat.add_zero]
  · obtain ⟨hlength, s, hs, hfaults⟩ := hlost hpos
    rcases h with hlimit | htexts
    · -- The report was full before anything was lost.
      have hone : 1 ≤ Report.defaultLimit := by decide
      have hfull : max 1 options.maxErrors ≤ shown.length :=
        Nat.le_trans (Nat.max_le.mpr ⟨hone, hlimit⟩) hlength
      omega
    · exact absurd (htexts s hs) (Nat.not_le_of_lt hfaults)

/-- A text with two openings in a marker, and a second text without a filter name behind a pipe: of
    three errors, the first two are stored. -/
theorem stored_of_limit_two :
    let options : ParseOptions := ⟨2, 64⟩
    let document : Json := .array [.text "$\x7ba:b$\x7b$\x7b\x7d", .text "$\x7ba:b|\x7d"]
    (options.maxErrors ≤ Report.defaultLimit ∨
      ∀ s ∈ document.texts,
        (Lexed.ofText s .root).report.totalErrors ≤ Report.defaultLimit) ∧
      (ofDocument options document).report.errors.length =
        min (max 1 options.maxErrors) (ofDocument options document).report.totalErrors := by
  intro options document
  have hlimit : options.maxErrors ≤ Report.defaultLimit := by decide
  exact ⟨.inl hlimit, stored_of_limit (.inl hlimit)⟩

/-- A marker with one opening more in it than the usual limit: one error is lost, though the parse
    would store it. -/
theorem stored_of_nested_markers :
    let document : Json := .text (String.join (List.replicate 22 "$\x7b") ++ "\x7d")
    let report := (ofDocument ⟨21, 64⟩ document).report
    report.errors.length = 20 ∧ report.totalErrors = 21 ∧
      report.errors.length ≠ min (max 1 21) report.totalErrors := by
  decide +kernel

end Parsed

end Stencil
