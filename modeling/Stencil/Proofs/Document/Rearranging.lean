import Stencil.Proofs.Document.Reporting

/-!
# Documents with their directives rearranged

The directives of an object are taken out of its fields, so it should not matter where they stand.
This file fixes

* the documents that are rearrangements of a document (`Json.Rearranged`): in some of its objects,
  but in no condition, the fields are permuted, and ordinary fields and containers keep their order;
* findings at the same level (`Findings.Level`) and parses that keep findings at the same level and
  have the same result (`Parse.Parallel`), with one lemma for each way of putting parses together;
* that a document and a rearrangement of it are parsed in parallel, whatever they stand for in a
  larger document: a node, a clause, a branch, or a list of clauses or branches (`Json.Alike`).
-/

namespace Stencil

/-! ## 1. Findings at the same level -/

/-- Two reports with the same limit that have stored and counted equally many errors. -/
structure Report.Level (r r' : Report) : Prop where
  limit : r'.limit = r.limit
  stored : r'.errors.length = r.errors.length
  counted : r'.totalErrors = r.totalErrors

namespace Report

variable {r r' : Report}

theorem level_refl (r : Report) : r.Level r :=
  ⟨rfl, rfl, rfl⟩

theorem Level.isFull_eq (h : r.Level r') : r'.isFull = r.isFull := by
  rw [isFull, isFull, h.limit, h.stored]

/-- What the errors say does not matter. -/
theorem Level.addError (h : r.Level r') (d d' : Diagnostic) :
    (r.addError d).Level (r'.addError d') where
  limit := h.limit
  stored := by
    rw [Report.addError, Report.addError, h.isFull_eq]
    cases r.isFull with
    | true => exact h.stored
    | false => simp [h.stored]
  counted := congrArg (· + 1) h.counted

theorem Level.addErrors (h : r.Level r') {ds ds' : List Diagnostic}
    (hlength : ds'.length = ds.length) : (r.addErrors ds).Level (r'.addErrors ds') := by
  induction ds generalizing r r' ds' with
  | nil =>
    rw [List.eq_nil_of_length_eq_zero hlength]
    exact h
  | cons d rest ih =>
    obtain ⟨d', rest', rfl⟩ := List.exists_cons_of_length_eq_add_one hlength
    exact ih (h.addError d d') (Nat.succ.inj hlength)

theorem Level.merge (h : r.Level r') (other : Report) : (r.merge other).Level (r'.merge other) := by
  have hadded := h.addErrors (rfl : other.errors.length = other.errors.length)
  have hcounted := hadded.counted
  refine ⟨?_, ?_, ?_⟩
  · rw [Report.merge, Report.merge, limit_addWarnings, limit_addWarnings]
    exact hadded.limit
  · rw [Report.merge, Report.merge, errors_addWarnings, errors_addWarnings]
    exact hadded.stored
  · rw [Report.merge, Report.merge, totalErrors_addWarnings, totalErrors_addWarnings, hcounted]

end Report

/-- Two findings with reports at the same level, which agree on whether the document is too
    deep. -/
structure Findings.Level (found found' : Findings) : Prop where
  report : found.report.Level found'.report
  tooDeep : found'.tooDeep = found.tooDeep

theorem Findings.level_refl (found : Findings) : found.Level found :=
  ⟨Report.level_refl _, rfl⟩

/-! ## 2. Parses in parallel -/

namespace Parse

variable {α β γ : Type}

/-- Two runs with the same result, and with findings at the same level. -/
structure InStep (run run' : Option α × Findings) : Prop where
  result : run'.1 = run.1
  level : run.2.Level run'.2

/-- Two parses that have the same result and leave findings at the same level, if they start with
    findings at the same level. -/
def Parallel (p q : Parse α) : Prop :=
  ∀ (options : ParseOptions) (depth : Nat) {found found' : Findings}, found.Level found' →
    InStep (p options depth found) (q options depth found')

namespace Parallel

theorem trans {p q r : Parse α} (h : p.Parallel q) (h' : q.Parallel r) : p.Parallel r := by
  intro options depth found found' hlevel
  have hfirst := h options depth hlevel
  have hsecond := h' options depth (Findings.level_refl found')
  refine ⟨hsecond.result.trans hfirst.result, ?_, ?_⟩
  · have hreport := hfirst.level.report
    have hreport' := hsecond.level.report
    exact ⟨hreport'.limit.trans hreport.limit, hreport'.stored.trans hreport.stored,
      hreport'.counted.trans hreport.counted⟩
  · exact hsecond.level.tooDeep.trans hfirst.level.tooDeep

theorem pure (a : α) : (pure a).Parallel (pure a) :=
  fun _ _ _ _ hlevel => ⟨rfl, hlevel⟩

/-- Two refusals with equally many errors. -/
theorem refuseEach {ds ds' : List Diagnostic} (hlength : ds'.length = ds.length) :
    (refuseEach ds : Parse α).Parallel (refuseEach ds') :=
  fun _ _ _ _ hlevel => ⟨rfl, hlevel.report.addErrors hlength, hlevel.tooDeep⟩

theorem refuse (d d' : Diagnostic) : (refuse d : Parse α).Parallel (refuse d') :=
  refuseEach rfl

theorem text (s : String) (path : DocPath) : (text s path).Parallel (text s path) := by
  intro options depth found found' hlevel
  unfold Parse.text
  cases Template.read s path with
  | ok e => exact ⟨rfl, hlevel⟩
  | error r => exact ⟨rfl, hlevel.report.merge r, hlevel.tooDeep⟩

theorem map {p q : Parse α} (h : p.Parallel q) (f : α → β) : (p.map f).Parallel (q.map f) := by
  intro options depth found found' hlevel
  have hrun := h options depth hlevel
  exact ⟨congrArg (Option.map f) hrun.result, hrun.level⟩

theorem both {p q : Parse α} {p' q' : Parse β} (h : p.Parallel q) (h' : p'.Parallel q') :
    (p.both p').Parallel (q.both q') := by
  intro options depth found found' hlevel
  have hfirst := h options depth hlevel
  have hsecond := h' options depth hfirst.level
  refine ⟨?_, hsecond.level⟩
  simp only [Parse.both, hfirst.result, hsecond.result]

theorem bind {p q : Parse α} {f g : α → Parse β} (h : p.Parallel q)
    (hf : ∀ a, (f a).Parallel (g a)) : (p.bind f).Parallel (q.bind g) := by
  intro options depth found found' hlevel
  obtain ⟨hresult, hafter⟩ := h options depth hlevel
  unfold Parse.bind
  rcases hrun : p options depth found with ⟨result, after⟩
  rcases hrun' : q options depth found' with ⟨result', after'⟩
  rw [hrun, hrun'] at hresult hafter
  obtain rfl : result' = result := hresult
  cases result' with
  | none => exact ⟨rfl, hafter⟩
  | some a => exact hf a options depth hafter

/-- A node is entered on both sides or on neither. -/
theorem nested {p q : Parse α} (h : p.Parallel q) (path path' : DocPath) :
    (nested path p).Parallel (nested path' q) := by
  intro options depth found found' hlevel
  unfold Parse.nested
  rw [hlevel.report.isFull_eq, hlevel.tooDeep]
  split
  · exact ⟨rfl, hlevel⟩
  · split
    · split
      · exact ⟨rfl, hlevel⟩
      · exact ⟨rfl, hlevel.report.addError _ _, rfl⟩
    · exact h options (depth + 1) hlevel

theorem andThen {p q : Parse α} {p' q' : Parse β} (h : p.Parallel q) (h' : p'.Parallel q') :
    (p.andThen p').Parallel (q.andThen q') :=
  (h.both h').map Prod.snd

theorem optional {p q : Option (Parse α)} (h : Option.Rel Parallel p q) :
    (Parse.optional p).Parallel (Parse.optional q) := by
  cases h with
  | none => exact pure none
  | some h => exact h.map some

theorem complain {ds ds' : List Diagnostic} (hlength : ds'.length = ds.length) :
    (complain ds).Parallel (complain ds') := by
  cases ds with
  | nil =>
    rw [List.eq_nil_of_length_eq_zero hlength]
    exact pure ()
  | cons d rest =>
    obtain ⟨d', rest', rfl⟩ := List.exists_cons_of_length_eq_add_one hlength
    exact refuseEach hlength

theorem repeated {body body' : Parse Expr} {source source' : Option (Parse Expr)}
    (h : body.Parallel body') (hsource : Option.Rel Parallel source source') :
    (Parse.repeated body source).Parallel (Parse.repeated body' source') := by
  cases hsource with
  | none => exact h
  | some hsource => exact (h.both hsource).map _

end Parallel

/-- **Every parse is parallel to itself**: what it does depends on the level of the findings
    alone. -/
theorem Built.parallel {readable : String → Prop} {p : Parse α} (hp : Built readable p) :
    p.Parallel p := by
  induction hp with
  | pure a => exact .pure a
  | refuseEach h => exact .refuseEach rfl
  | text path h => exact .text _ path
  | map f _ ih => exact ih.map f
  | both _ _ ih ih' => exact ih.both ih'
  | bind _ _ ih ihf => exact ih.bind ihf
  | nested path _ ih => exact ih.nested path path

end Parse

/-! ## 3. Clauses and branches -/

/-- The clause that an element of `@when` stands for. -/
def Outline.clause (path : DocPath) : Outline → Parse Clause
  | .object block =>
    (Parse.nested path (Block.parse path block)).map fun (predicate, result) =>
      .mk predicate result
  | item => .refuse ((Fault.clauseNotObject item.kind).on path)

/-- The branch that an element of `@container` stands for. -/
def Outline.branch (path : DocPath) : Outline → Parse Expr
  | .object block => Parse.nested path ((Block.parse path block).map Expr.guarded)
  | item => .refuse ((Fault.branchNotObject item.kind).on path)

section Items

variable (path : DocPath) (i : Nat) (item : Outline) (rest : List Outline)

theorem parseClauseItems_cons : parseClauseItems path i (item :: rest) =
    ((item.clause (path.index i)).both (parseClauseItems path (i + 1) rest)).map
      fun (first, others) => first :: others := by
  cases item with
  | object block =>
    rw [parseClauseItems, Outline.clause]
    funext options depth found
    simp only [Parse.map, Parse.both]
    rcases Parse.nested (path.index i) (Block.parse (path.index i) block) options depth found with
      ⟨_ | ⟨predicate, result⟩, after⟩
    · rfl
    · cases (parseClauseItems path (i + 1) rest options depth after).1 <;> rfl
  | null | bool | number | text | sequence =>
    rw [parseClauseItems, Outline.clause]
    · rfl
    · simp
    · simp

theorem parseBranchItems_cons : parseBranchItems path i (item :: rest) =
    ((item.branch (path.index i)).both (parseBranchItems path (i + 1) rest)).map
      fun (first, others) => first :: others := by
  cases item with
  | object block => rw [parseBranchItems, Outline.branch]
  | null | bool | number | text | sequence =>
    rw [parseBranchItems, Outline.branch]
    · rfl
    · simp
    · simp

end Items

/-! ## 4. Alike documents -/

/-- Two documents that are parsed in parallel, whatever they stand for in a larger document. -/
structure Json.Alike (d d' : Json) : Prop where
  node : ∀ path,
    (Outline.parse path (Outline.ofJson d)).Parallel (Outline.parse path (Outline.ofJson d'))
  clauses : ∀ path,
    (parseClauses path (Outline.ofJson d)).Parallel (parseClauses path (Outline.ofJson d'))
  branches : ∀ path,
    (parseBranches path (Outline.ofJson d)).Parallel (parseBranches path (Outline.ofJson d'))
  clause : ∀ path,
    ((Outline.ofJson d).clause path).Parallel ((Outline.ofJson d').clause path)
  branch : ∀ path,
    ((Outline.ofJson d).branch path).Parallel ((Outline.ofJson d').branch path)

namespace Json

open Outline Parse

theorem Alike.trans {d d' d'' : Json} (h : d.Alike d') (h' : d'.Alike d'') : d.Alike d'' where
  node path := (h.node path).trans (h'.node path)
  clauses path := (h.clauses path).trans (h'.clauses path)
  branches path := (h.branches path).trans (h'.branches path)
  clause path := (h.clause path).trans (h'.clause path)
  branch path := (h.branch path).trans (h'.branch path)

/-- Objects whose blocks are parsed in parallel. -/
theorem alike_object {fields fields' : List (String × Json)}
    (h : ∀ path, (Block.parse path (ofJsonFields fields)).Parallel
      (Block.parse path (ofJsonFields fields'))) :
    (Json.object fields).Alike (.object fields') where
  node path := by
    rw [ofJson, ofJson, Outline.parse, Outline.parse]
    exact ((h path).map _).nested path path
  clauses path := by
    rw [ofJson, ofJson, parseClauses, parseClauses]
    exact .refuse _ _
  branches path := by
    rw [ofJson, ofJson, parseBranches, parseBranches]
    exact (((h path).map _).nested path path).map _
  clause path := ((h path).nested path path).map _
  branch path := ((h path).map _).nested path path

theorem alike_refl (d : Json) : d.Alike d where
  node path := (Inner.node path _).built.parallel
  clauses path := (Inner.clauses path _).built.parallel
  branches path := (Inner.branches path _).built.parallel
  clause path := by
    cases d with
    | object fields => exact ((Inner.object path _).built.parallel.nested path path).map _
    | null | bool | number | text | array => exact .refuse _ _
  branch path := by
    cases d with
    | object fields => exact ((Inner.object path _).built.parallel.map _).nested path path
    | null | bool | number | text | array => exact .refuse _ _

/-! ## 5. Alike elements -/

section Items

variable {items items' : List Json}

theorem parallel_items (h : List.Forall₂ Alike items items') (path : DocPath) (i : Nat) :
    (parseItems path i (ofJsonItems items)).Parallel (parseItems path i (ofJsonItems items')) := by
  induction h generalizing i with
  | nil => exact (Inner.items path i []).built.parallel
  | cons hitem _ ih =>
    rw [ofJsonItems, ofJsonItems, parseItems, parseItems]
    exact ((hitem.node (path.index i)).both (ih (i + 1))).map _

theorem parallel_clauseItems (h : List.Forall₂ Alike items items') (path : DocPath) (i : Nat) :
    (parseClauseItems path i (ofJsonItems items)).Parallel
      (parseClauseItems path i (ofJsonItems items')) := by
  induction h generalizing i with
  | nil => exact (Inner.clauseItems path i []).built.parallel
  | cons hitem _ ih =>
    rw [ofJsonItems, ofJsonItems, parseClauseItems_cons, parseClauseItems_cons]
    exact ((hitem.clause (path.index i)).both (ih (i + 1))).map _

theorem parallel_branchItems (h : List.Forall₂ Alike items items') (path : DocPath) (i : Nat) :
    (parseBranchItems path i (ofJsonItems items)).Parallel
      (parseBranchItems path i (ofJsonItems items')) := by
  induction h generalizing i with
  | nil => exact (Inner.branchItems path i []).built.parallel
  | cons hitem _ ih =>
    rw [ofJsonItems, ofJsonItems, parseBranchItems_cons, parseBranchItems_cons]
    exact ((hitem.branch (path.index i)).both (ih (i + 1))).map _

/-- **Arrays with alike elements are alike.** -/
theorem alike_array (h : List.Forall₂ Alike items items') :
    (Json.array items).Alike (.array items') where
  node path := by
    rw [ofJson, ofJson, Outline.parse, Outline.parse]
    exact ((parallel_items h path 0).map _).nested path path
  clauses path := by
    rw [ofJson, ofJson, parseClauses, parseClauses]
    exact (parallel_clauseItems h path 0).map _
  branches path := by
    rw [ofJson, ofJson, parseBranches, parseBranches]
    exact parallel_branchItems h path 0
  clause _ := .refuse _ _
  branch _ := .refuse _ _

end Items

/-! ## 6. Alike fields -/

/-- Two fields of the same name that hold alike documents; a condition is held as it is. -/
structure AlikeFields (field field' : String × Json) : Prop where
  name : field'.1 = field.1
  guard : field.1 = Directive.guard → field'.2 = field.2
  alike : field.2.Alike field'.2

theorem alikeFields_refl (field : String × Json) : AlikeFields field field :=
  ⟨rfl, fun _ => rfl, alike_refl field.2⟩

section Fields

variable {fields fields' : List (String × Json)}

/-- A directive is there on both sides or on neither, and holds alike documents. -/
theorem rel_field? (h : List.Forall₂ AlikeFields fields fields') (name : String) :
    Option.Rel Alike (field? fields name) (field? fields' name) := by
  induction h with
  | nil => exact .none
  | @cons field field' rest rest' hfield _ ih =>
    obtain ⟨key, tree⟩ := field
    obtain ⟨key', tree'⟩ := field'
    obtain rfl : key' = key := hfield.name
    rw [field?, field?]
    revert ih
    generalize field? rest name = found
    generalize field? rest' name = found'
    intro ih
    cases ih with
    | some halike => exact .some halike
    | none =>
      by_cases hkey : key' = name
      · rw [if_pos hkey, if_pos hkey]
        exact .some hfield.alike
      · rw [if_neg hkey, if_neg hkey]
        exact .none

theorem rel_map_field? {α : Type} (h : List.Forall₂ AlikeFields fields fields') (name : String)
    {p : Json → Parse α} (hp : ∀ {d d' : Json}, d.Alike d' → (p d).Parallel (p d')) :
    Option.Rel Parallel ((field? fields name).map p) ((field? fields' name).map p) := by
  have hrel := rel_field? h name
  revert hrel
  generalize field? fields name = found
  generalize field? fields' name = found'
  intro hrel
  cases hrel with
  | none => exact .none
  | some halike => exact .some (hp halike)

theorem field?_guard_eq (h : List.Forall₂ AlikeFields fields fields') :
    field? fields' Directive.guard = field? fields Directive.guard := by
  induction h with
  | nil => rfl
  | @cons field field' rest rest' hfield _ ih =>
    obtain ⟨key, tree⟩ := field
    obtain ⟨key', tree'⟩ := field'
    obtain rfl : key' = key := hfield.name
    rw [field?, field?, ih]
    by_cases hkey : key' = Directive.guard
    · obtain rfl : tree' = tree := hfield.guard hkey
      rfl
    · rw [if_neg hkey, if_neg hkey]

theorem strangers_eq (h : List.Forall₂ AlikeFields fields fields') :
    Directive.strangers fields' = Directive.strangers fields := by
  induction h with
  | nil => rfl
  | @cons field field' rest rest' hfield _ ih =>
    obtain ⟨key, tree⟩ := field
    obtain ⟨key', tree'⟩ := field'
    obtain rfl : key' = key := hfield.name
    rw [Directive.strangers, Directive.strangers, ih]

theorem parallel_entries (h : List.Forall₂ AlikeFields fields fields') (path : DocPath) :
    (entriesOf fields').isEmpty = (entriesOf fields).isEmpty ∧
      (parseEntries path (entriesOf fields)).Parallel
        (parseEntries path (entriesOf fields')) := by
  induction h with
  | nil => exact ⟨rfl, (Inner.entries path []).built.parallel⟩
  | @cons field field' rest rest' hfield _ ih =>
    obtain ⟨key, tree⟩ := field
    obtain ⟨key', tree'⟩ := field'
    obtain rfl : key' = key := hfield.name
    rw [entriesOf, entriesOf]
    by_cases hcontainer : key' = Directive.container
    · rw [if_pos hcontainer, if_pos hcontainer, parseEntries, parseEntries]
      exact ⟨rfl, ((hfield.alike.branches _).both ih.2).map _⟩
    · rw [if_neg hcontainer, if_neg hcontainer]
      by_cases hlooks : Directive.looksLike key' = true
      · rwa [if_pos hlooks, if_pos hlooks]
      · rw [if_neg hlooks, if_neg hlooks, parseEntries, parseEntries]
        exact ⟨rfl, ((hfield.alike.node _).both ih.2).map _⟩

theorem parallel_body (h : List.Forall₂ AlikeFields fields fields') (path : DocPath) :
    (Block.parseBody path fields).Parallel (Block.parseBody path fields') := by
  obtain ⟨hempty, hentries⟩ := parallel_entries h path
  have hclauses := rel_field? h Directive.clauses
  have hvalue := rel_field? h Directive.value
  unfold Block.parseBody
  rw [hempty]
  revert hclauses hvalue
  generalize field? fields Directive.clauses = clauses
  generalize field? fields' Directive.clauses = clauses'
  generalize field? fields Directive.value = value
  generalize field? fields' Directive.value = value'
  intro hclauses hvalue
  cases hclauses with
  | some halike =>
    refine .andThen (.complain ?_) (halike.clauses _)
    cases hvalue <;> rfl
  | none =>
    cases hvalue with
    | some halike => exact halike.node _
    | none => exact hentries.map _

/-- **Objects with alike fields** are parsed in parallel. -/
theorem parallel_object (h : List.Forall₂ AlikeFields fields fields') (path : DocPath) :
    (Block.parse path (ofJsonFields fields)).Parallel
      (Block.parse path (ofJsonFields fields')) := by
  have hsame := strangers_eq h
  cases hstrangers : Directive.strangers fields with
  | cons name rest =>
    rw [hstrangers] at hsame
    rw [Block.parse_of_strangers hstrangers, Block.parse_of_strangers hsame]
    exact .refuseEach rfl
  | nil =>
    rw [hstrangers] at hsame
    rw [Block.parse_of_no_strangers hstrangers, Block.parse_of_no_strangers hsame,
      field?_guard_eq h]
    refine .both (.optional ?_) (.repeated (parallel_body h path) ?_)
    · cases field? fields Directive.guard with
      | none => exact .none
      | some tree => exact .some (Inner.predicate _ tree).built.parallel
    · exact rel_map_field? h Directive.source fun halike => halike.node _

end Fields

end Json

/-! ## 7. Rearranged documents -/

/-- Does a field keep its place among such fields: is it an ordinary one or a container? -/
def Directive.keepsPlace (field : String × Json) : Bool :=
  !looksLike field.1 || field.1 == container

namespace Json

open Outline Parse

/-- A document is a rearrangement of another one: in some of its objects, each of which has a field
    only once, the fields are permuted, and the ordinary fields and the containers keep their order.
    What stands under `@if` is left as it is. -/
inductive Rearranged : Json → Json → Prop where
  | refl (d : Json) : Rearranged d d
  | trans {d d' d'' : Json} (h : Rearranged d d') (h' : Rearranged d' d'') : Rearranged d d''
  | item {before after : List Json} {d d' : Json} (h : Rearranged d d') :
      Rearranged (.array (before ++ d :: after)) (.array (before ++ d' :: after))
  | value {before after : List (String × Json)} {name : String} {d d' : Json}
      (hname : name ≠ Directive.guard) (h : Rearranged d d') :
      Rearranged (.object (before ++ (name, d) :: after)) (.object (before ++ (name, d') :: after))
  | fields {fields fields' : List (String × Json)} (hnames : (fields.map Prod.fst).Nodup)
      (hperm : fields.Perm fields')
      (hplaces : fields.filter Directive.keepsPlace = fields'.filter Directive.keepsPlace) :
      Rearranged (.object fields) (.object fields')

section Fields

variable {fields fields' : List (String × Json)}

/-- A field that is there once holds what is written. -/
theorem field?_eq_some_iff (hnames : (fields.map Prod.fst).Nodup) {name : String} {tree : Json} :
    field? fields name = some tree ↔ (name, tree) ∈ fields := by
  refine ⟨mem_of_field?, fun hmem => ?_⟩
  induction fields with
  | nil => cases hmem
  | cons field rest ih =>
    obtain ⟨hfresh, hrest⟩ := List.nodup_cons.mp hnames
    rcases List.mem_cons.mp hmem with rfl | hmore
    · have hnone : field? rest name = none := by
        refine Option.eq_none_iff_forall_ne_some.mpr fun other hother => hfresh ?_
        exact List.mem_map.mpr ⟨(name, other), mem_of_field? hother, rfl⟩
      rw [field?_cons_self, hnone, Option.getD_none]
    · rw [field?, ih hrest hmore]
      rfl

theorem field?_of_perm (hnames : (fields.map Prod.fst).Nodup) (hperm : fields.Perm fields')
    (name : String) : field? fields' name = field? fields name := by
  have hnames' := (hperm.map Prod.fst).nodup_iff.mp hnames
  refine Option.ext fun tree => ?_
  rw [field?_eq_some_iff hnames, field?_eq_some_iff hnames', hperm.mem_iff]

theorem strangers_eq_filter (fields : List (String × Json)) : Directive.strangers fields =
    (fields.map Prod.fst).filter fun name =>
      Directive.looksLike name = true ∧ name ∉ Directive.known := by
  induction fields with
  | nil => rfl
  | cons field rest ih =>
    rw [Directive.strangers, List.map_cons, List.filter_cons, ih]
    simp only [decide_eq_true_eq]

theorem strangers_perm (hperm : fields.Perm fields') :
    (Directive.strangers fields).Perm (Directive.strangers fields') := by
  rw [strangers_eq_filter, strangers_eq_filter]
  exact (hperm.map Prod.fst).filter _

/-- The entries of an object are its fields that keep their place. -/
theorem entriesOf_filter (fields : List (String × Json)) :
    entriesOf (fields.filter Directive.keepsPlace) = entriesOf fields := by
  induction fields with
  | nil => rfl
  | cons field rest ih =>
    obtain ⟨name, tree⟩ := field
    rw [List.filter_cons, entriesOf]
    by_cases hcontainer : name = Directive.container
    · rw [if_pos hcontainer, if_pos (by simp [Directive.keepsPlace, hcontainer]), entriesOf,
        if_pos hcontainer, ih]
    · rw [if_neg hcontainer]
      by_cases hlooks : Directive.looksLike name = true
      · rw [if_pos hlooks, if_neg (by simp [Directive.keepsPlace, hcontainer, hlooks]), ih]
      · rw [if_neg hlooks, if_pos (by simp [Directive.keepsPlace, hlooks]), entriesOf,
          if_neg hcontainer, if_neg hlooks, ih]

/-- **Rearranged objects are parsed in parallel.** -/
theorem parallel_of_perm (hnames : (fields.map Prod.fst).Nodup) (hperm : fields.Perm fields')
    (hplaces : fields.filter Directive.keepsPlace = fields'.filter Directive.keepsPlace)
    (path : DocPath) : (Block.parse path (ofJsonFields fields)).Parallel
      (Block.parse path (ofJsonFields fields')) := by
  have hstrange := strangers_perm hperm
  cases hstrangers : Directive.strangers fields with
  | cons name rest =>
    rw [hstrangers] at hstrange
    have hlength := hstrange.length_eq
    obtain ⟨name', rest', hstrangers'⟩ :=
      List.exists_cons_of_length_eq_add_one hlength.symm
    rw [hstrangers'] at hlength
    rw [Block.parse_of_strangers hstrangers, Block.parse_of_strangers hstrangers']
    exact .refuseEach (by simpa [Block.strangers] using hlength.symm)
  | nil =>
    rw [hstrangers] at hstrange
    have hentries := congrArg entriesOf hplaces
    rw [entriesOf_filter, entriesOf_filter] at hentries
    have hsame : ofJsonFields fields' = ofJsonFields fields := by
      rw [ofJsonFields_eq, ofJsonFields_eq, hstrangers, hstrange.nil_eq, hentries]
      simp only [field?_of_perm hnames hperm]
    rw [hsame]
    exact (Inner.object path _).built.parallel

end Fields

/-- **A document and a rearrangement of it are alike.** -/
theorem Rearranged.alike {d d' : Json} (h : d.Rearranged d') : d.Alike d' := by
  induction h with
  | refl d => exact alike_refl d
  | trans _ _ ih ih' => exact ih.trans ih'
  | @item before after d d' _ ih =>
    have hbefore : List.Forall₂ Alike before before := List.forall₂_same.mpr fun d _ => alike_refl d
    have hafter : List.Forall₂ Alike after after := List.forall₂_same.mpr fun d _ => alike_refl d
    exact alike_array (List.rel_append hbefore (.cons ih hafter))
  | @value before after name d d' hname _ ih =>
    have hbefore : List.Forall₂ AlikeFields before before :=
      List.forall₂_same.mpr fun field _ => alikeFields_refl field
    have hafter : List.Forall₂ AlikeFields after after :=
      List.forall₂_same.mpr fun field _ => alikeFields_refl field
    have hfield : AlikeFields (name, d) (name, d') := ⟨rfl, fun hguard => absurd hguard hname, ih⟩
    exact alike_object (parallel_object (List.rel_append hbefore (.cons hfield hafter)))
  | fields hnames hperm hplaces => exact alike_object (parallel_of_perm hnames hperm hplaces)

end Json

/-- **Where directives stand does not matter.** A document is parsed exactly if a rearrangement of
    it is, and into the same expression; and if they are not parsed, as many errors are counted. -/
theorem Parsed.toExcept_rearranged {d d' : Json} (h : d.Rearranged d') (options : ParseOptions) :
    (∀ e, (ofDocument options d).toExcept = .ok e ↔ (ofDocument options d').toExcept = .ok e) ∧
      (ofDocument options d').report.totalErrors = (ofDocument options d).report.totalErrors := by
  obtain ⟨hresult, hlevel⟩ := h.alike.node .root options 0
    (Findings.level_refl ⟨Report.withLimit options.maxErrors, false⟩)
  refine ⟨fun e => ?_, hlevel.report.counted⟩
  have hsame : (run options d').1 = (run options d).1 := hresult
  rw [toExcept_eq_ok_iff, toExcept_eq_ok_iff, expr_ofDocument, expr_ofDocument, hsame]

/-- A guard moved in front of a value, and inside the value a repetition behind a field. -/
theorem Parsed.toExcept_rearranged_twice :
    let source : String × Json := ("@repeat", .text "$\x7bns:xs\x7d")
    let value (item : Json) : String × Json := ("@value", .array [.null, item])
    let guard : String × Json := ("@if", .bool false)
    let d : Json := .object [value (.object [source, ("a", .null)]), guard]
    let d' : Json := .object [guard, value (.object [("a", .null), source])]
    d.Rearranged d' ∧ (ofDocument .default d').toExcept = .ok (.conditional [.mk
      (some (.const (.bool false)))
      (.list [.const .null, .repetition (.interpolated [.call ⟨⟨"ns", "xs"⟩, []⟩])
        (.tree [.field "a" (.const .null)])])]) := by
  intro source value guard d d'
  have hinner : Json.Rearranged (.object [source, ("a", .null)]) (.object [("a", .null), source]) :=
    .fields (by decide) (.swap _ _ _)
      (by simp [source, Directive.keepsPlace, Directive.looksLike, Directive.container])
  have hvalue : d.Rearranged (.object [value (.object [("a", .null), source]), guard]) :=
    @Json.Rearranged.value [] [guard] _ _ _ (by decide)
      (@Json.Rearranged.item [.null] [] _ _ hinner)
  have houter : Json.Rearranged (.object [value (.object [("a", .null), source]), guard]) d' :=
    .fields (by decide) (.swap _ _ _)
      (by simp [value, guard, Directive.keepsPlace, Directive.looksLike, Directive.container])
  have hrearranged := hvalue.trans houter
  exact ⟨hrearranged, ((Parsed.toExcept_rearranged hrearranged .default).1 _).mp (by rfl)⟩

end Stencil
