import Stencil.Proofs.Document.Reporting
import Stencil.Proofs.Marker.Columns

/-!
# Where diagnostics point

A diagnostic has a path, and a column if it is about a part of a text. This file fixes

* the nodes of a document, each with the path that leads to it (`Json.HasNode`);
* the diagnostics that point into a document (`Diagnostic.PointsInto`): at a node, and at a
  character of it if there is a column;
* that no parse reports any others (`Parse.PointsInto`): shown for each way of putting parses
  together, then for conditions, and by one induction for documents.
-/

namespace Stencil

/-! ## 1. The nodes of a document -/

namespace Json

/-- The nodes of a document. The path of a node leads to it from the root, from an object to what
    one of its fields holds and from an array to one of its elements. -/
inductive HasNode (document : Json) : DocPath → Json → Prop where
  | root : HasNode document .root document
  | field {path : DocPath} {fields : List (String × Json)} {name : String} {tree : Json}
      (h : HasNode document path (.object fields)) (hfield : (name, tree) ∈ fields) :
      HasNode document (path.field name) tree
  | item {path : DocPath} {items : List Json} {i : Nat} {tree : Json}
      (h : HasNode document path (.array items)) (hitem : items[i]? = some tree) :
      HasNode document (path.index i) tree

/-- A document in which the characters of every text can be counted by columns. -/
def Countable (document : Json) : Prop :=
  ∀ s ∈ document.texts, s.length < 4294967295

instance : DecidablePred Countable :=
  fun document => inferInstanceAs (Decidable (∀ s ∈ document.texts, s.length < 4294967295))

/-- What these fields hold are nodes, one step behind a path. -/
def HasFields (document : Json) (path : DocPath) (fields : List (String × Json)) : Prop :=
  ∀ field ∈ fields, document.HasNode (path.field field.1) field.2

/-- These elements are nodes, one step behind a path; the first one is at an index. -/
def HasItems (document : Json) (path : DocPath) (i : Nat) (items : List Json) : Prop :=
  ∀ j tree, items[j]? = some tree → document.HasNode (path.index (i + j)) tree

variable {document tree : Json} {path : DocPath}

theorem HasNode.fields {fields : List (String × Json)}
    (h : document.HasNode path (.object fields)) : document.HasFields path fields :=
  fun _ hfield => h.field hfield

theorem HasNode.items {items : List Json} (h : document.HasNode path (.array items)) :
    document.HasItems path 0 items := by
  intro j tree hitem
  rw [Nat.zero_add]
  exact h.item hitem

theorem HasItems.head {i : Nat} {rest : List Json} (h : document.HasItems path i (tree :: rest)) :
    document.HasNode (path.index i) tree :=
  h 0 tree rfl

theorem HasItems.tail {i : Nat} {rest : List Json} (h : document.HasItems path i (tree :: rest)) :
    document.HasItems path (i + 1) rest := by
  intro j other hitem
  rw [Nat.add_assoc, Nat.add_comm 1 j]
  exact h (j + 1) other hitem

/-- The texts of a node are texts of the document. -/
theorem HasNode.mem_texts {s : String} (h : document.HasNode path tree) (hs : s ∈ tree.texts) :
    s ∈ document.texts := by
  induction h with
  | root => exact hs
  | field _ hfield ih => exact ih (mem_fieldTexts.mpr ⟨_, hfield, hs⟩)
  | item _ hitem ih => exact ih (mem_itemTexts.mpr ⟨_, List.mem_of_getElem? hitem, hs⟩)

end Json

/-! ## 2. Diagnostics at a place -/

/-- A diagnostic is about a node. A column is one of a text, and what is wrong with the opening of a
    marker has the column at which the marker opens. -/
structure Diagnostic.IsAbout (node : Json) (d : Diagnostic) : Prop where
  column : ∀ c, d.column = some c → ∃ s, node = .text s ∧ Text.HasColumn s c ∧
    (d.code ∈ ErrorCode.openings → Text.OpensAt s c)
  opening : d.code ∈ ErrorCode.openings → d.column.isSome

/-- A diagnostic points into a document: its path leads to a node, and it is about that node. -/
def Diagnostic.PointsInto (document : Json) (d : Diagnostic) : Prop :=
  ∃ node, document.HasNode d.path node ∧ d.IsAbout node

section Place

variable {document tree : Json} {path : DocPath} {s : String} {d : Diagnostic}

theorem Fault.pointsInto_on {f : Fault} (hcode : f.code ∉ ErrorCode.openings)
    (h : document.HasNode path tree) : (f.on path).PointsInto document := by
  refine ⟨tree, h, ?_, fun hopening => absurd hopening hcode⟩
  intro c hc
  cases hc

theorem Diagnostic.Marks.pointsInto (h : d.Marks s path)
    (hnode : document.HasNode path (.text s)) : d.PointsInto document := by
  obtain ⟨rfl, c, hc, hcolumn, hopens⟩ := h
  refine ⟨.text s, hnode, ?_, fun _ => hc ▸ rfl⟩
  intro column hd
  obtain rfl : c = column := Option.some.inj (hc.symm.trans hd)
  exact ⟨s, rfl, hcolumn, hopens⟩

/-- **What is wrong with a text** is reported at its columns. -/
theorem Template.marks_of_read {r : Report} (hlength : s.length < 4294967295)
    (h : read s path = .error r) (hd : d ∈ r.errors) : d.Marks s path := by
  rcases report_of_read h with ⟨rfl, -⟩ | ⟨hclosed, ds, -, rfl, rfl⟩
  · rcases Report.mem_errors_addErrors hd with hnone | hfault
    · cases hnone
    · exact Lexeme.marks_of_mem_faults hlength hfault
  · rw [errors_ofErrors] at hd
    exact marks_of_mem_pieces (keeps_runs_ofText hlength hclosed) hd

end Place

/-! ## 3. Parses that point into a document -/

namespace Parse

/-- A parse whose diagnostics point into a document, if those before it do. -/
def PointsInto {α : Type} (document : Json) (p : Parse α) : Prop :=
  ∀ options depth found, (∀ d ∈ found.report.errors, d.PointsInto document) →
    ∀ d ∈ (p options depth found).2.report.errors, d.PointsInto document

variable {α β : Type} {document tree : Json} {path : DocPath} {p : Parse α} {q : Parse β}

theorem pointsInto_pure (a : α) : (pure a).PointsInto document :=
  fun _ _ _ hfound => hfound

theorem pointsInto_refuseEach {ds : List Diagnostic} (h : ∀ d ∈ ds, d.PointsInto document) :
    (refuseEach ds : Parse α).PointsInto document :=
  fun _ _ _ hfound d hd => (Report.mem_errors_addErrors hd).elim (hfound d) (h d)

theorem pointsInto_refuse {f : Fault} (hcode : f.code ∉ ErrorCode.openings)
    (h : document.HasNode path tree) : (refuse (f.on path) : Parse α).PointsInto document :=
  pointsInto_refuseEach (List.forall_mem_singleton.mpr (Fault.pointsInto_on hcode h))

theorem pointsInto_text {s : String} (hcount : document.Countable)
    (h : document.HasNode path (.text s)) : (text s path).PointsInto document := by
  have hlength := hcount s (h.mem_texts List.mem_cons_self)
  intro options depth found hfound d hd
  unfold text at hd
  cases hread : Template.read s path with
  | ok e =>
    rw [hread] at hd
    exact hfound d hd
  | error r =>
    rw [hread] at hd
    rcases Report.mem_errors_merge hd with hbefore | hr
    · exact hfound d hbefore
    · exact (Template.marks_of_read hlength hread hr).pointsInto h

theorem PointsInto.map (h : p.PointsInto document) (f : α → β) : (p.map f).PointsInto document :=
  h

theorem PointsInto.both (hp : p.PointsInto document) (hq : q.PointsInto document) :
    (p.both q).PointsInto document :=
  fun options depth found hfound => hq options depth _ (hp options depth found hfound)

theorem PointsInto.andThen (hp : p.PointsInto document) (hq : q.PointsInto document) :
    (p.andThen q).PointsInto document :=
  (hp.both hq).map Prod.snd

theorem PointsInto.bind {f : α → Parse β} (hp : p.PointsInto document)
    (hf : ∀ a, (f a).PointsInto document) : (p.bind f).PointsInto document := by
  intro options depth found hfound
  have hbetween := hp options depth found hfound
  unfold Parse.bind
  rcases hrun : p options depth found with ⟨_ | a, between⟩
  · rw [hrun] at hbetween
    exact hbetween
  · rw [hrun] at hbetween
    exact hf a options depth between hbetween

/-- That the document is too deep is reported of the node that is not entered. -/
theorem PointsInto.nested (hp : p.PointsInto document) (h : document.HasNode path tree) :
    (nested path p).PointsInto document := by
  intro options depth found hfound
  unfold Parse.nested
  split
  · exact hfound
  · split
    · split
      · exact hfound
      · have hrefuse : (refuse ((Fault.tooDeep options.maxDepth).on path) : Parse α).PointsInto
            document := pointsInto_refuse (of_decide_eq_false rfl) h
        exact hrefuse options depth found hfound
    · exact hp options (depth + 1) found hfound

theorem pointsInto_optional {p : Option (Parse α)} (h : ∀ q, p = some q → q.PointsInto document) :
    (optional p).PointsInto document := by
  cases p with
  | none => exact pointsInto_pure none
  | some q => exact (h q rfl).map some

theorem pointsInto_complain {ds : List Diagnostic} (h : ∀ d ∈ ds, d.PointsInto document) :
    (complain ds).PointsInto document := by
  cases ds with
  | nil => exact pointsInto_pure ()
  | cons d rest => exact pointsInto_refuseEach h

theorem PointsInto.repeated {body : Parse Expr} {source : Option (Parse Expr)}
    (hbody : body.PointsInto document) (hsource : ∀ q, source = some q → q.PointsInto document) :
    (Parse.repeated body source).PointsInto document := by
  cases source with
  | none => exact hbody
  | some q => exact (hbody.both (hsource q rfl)).map _

/-! ## 4. Conditions -/

section Condition

open Condition

theorem pointsInto_literal (h : document.HasNode path tree) :
    (literal path tree).PointsInto document := by
  cases tree with
  | array items => exact pointsInto_refuse (of_decide_eq_false rfl) h
  | object fields => exact pointsInto_refuse (of_decide_eq_false rfl) h
  | _ => exact pointsInto_pure _

theorem pointsInto_alternatives (key : Key) (operator : String) {i : Nat} {trees : List Json}
    (h : document.HasItems path i trees) :
    (alternatives key operator path i trees).PointsInto document := by
  induction trees generalizing i with
  | nil => exact pointsInto_pure []
  | cons tree rest ih => exact ((pointsInto_literal h.head).both (ih h.tail)).map _

theorem pointsInto_comparison (operator name : String)
    (h : document.HasNode (path.field name) tree) :
    (entry operator path name tree).PointsInto document := by
  unfold entry
  cases Key.parse? name with
  | none => exact pointsInto_refuse (of_decide_eq_false rfl) h
  | some key =>
    cases tree with
    | array options => exact (pointsInto_alternatives key operator h.items).map _
    | _ => exact (pointsInto_literal h).map _

theorem pointsInto_comparisons (operator : String) {fields : List (String × Json)}
    (h : document.HasFields path fields) :
    (entries operator path fields).PointsInto document := by
  induction fields with
  | nil => exact pointsInto_pure []
  | cons field rest ih =>
    obtain ⟨hfield, hrest⟩ := List.forall_mem_cons.mp h
    exact ((pointsInto_comparison operator field.1 hfield).both (ih hrest)).map _

theorem pointsInto_operators {fields : List (String × Json)}
    (h : document.HasFields path fields) : (operators path fields).PointsInto document := by
  induction fields with
  | nil => exact pointsInto_pure []
  | cons field rest ih =>
    obtain ⟨operator, tree⟩ := field
    obtain ⟨hfield, hrest⟩ := List.forall_mem_cons.mp h
    cases tree with
    | object conditions =>
      exact ((pointsInto_comparisons operator hfield.fields).both (ih hrest)).map _
    | _ => exact (pointsInto_refuse (of_decide_eq_false rfl) hfield).andThen (ih hrest)

theorem pointsInto_conjunction (h : document.HasNode path tree) (found : List Expr) :
    (conjunction path found).PointsInto document := by
  match found with
  | [] => exact pointsInto_refuse (of_decide_eq_false rfl) h
  | [only] => exact pointsInto_pure only
  | first :: second :: rest => exact pointsInto_pure (Expr.all (first :: second :: rest))

end Condition

theorem pointsInto_predicate (hcount : document.Countable) (h : document.HasNode path tree) :
    (Condition.predicate path tree).PointsInto document := by
  cases tree with
  | text s => exact pointsInto_text hcount h
  | bool b => exact pointsInto_pure _
  | object fields =>
    rw [Condition.predicate, Condition.object_eq_bind]
    exact (pointsInto_operators h.fields).bind (pointsInto_conjunction h)
  | null | number n | array items => exact pointsInto_refuse (of_decide_eq_false rfl) h

/-! ## 5. Documents -/

open Json Outline

mutual

/-- **The parse of a node** points into the document that the node is of. -/
theorem pointsInto_node (hcount : document.Countable) (tree : Json) {path : DocPath}
    (h : document.HasNode path tree) :
    (Outline.parse path (ofJson tree)).PointsInto document := by
  match tree, h with
  | .null, h | .bool _, h | .number _, h =>
    rw [ofJson, Outline.parse]
    exact (pointsInto_pure _).nested h
  | .text s, h =>
    rw [ofJson, Outline.parse]
    exact (pointsInto_text hcount h).nested h
  | .array items, h =>
    rw [ofJson, Outline.parse]
    exact ((pointsInto_items hcount items h.items).map _).nested h
  | .object fields, h =>
    rw [ofJson, Outline.parse]
    exact ((pointsInto_object hcount fields h).map _).nested h
termination_by (sizeOf tree, 0)

theorem pointsInto_items (hcount : document.Countable) (items : List Json) {path : DocPath}
    {i : Nat} (h : document.HasItems path i items) :
    (parseItems path i (ofJsonItems items)).PointsInto document := by
  match items, h with
  | [], _ =>
    rw [ofJsonItems, parseItems]
    exact pointsInto_pure []
  | item :: rest, h =>
    rw [ofJsonItems, parseItems]
    exact ((pointsInto_node hcount item h.head).both (pointsInto_items hcount rest h.tail)).map _
termination_by (sizeOf items, 0)

theorem pointsInto_object (hcount : document.Countable) (fields : List (String × Json))
    {path : DocPath} (h : document.HasNode path (.object fields)) :
    (Block.parse path (ofJsonFields fields)).PointsInto document := by
  cases hstrangers : Directive.strangers fields with
  | cons name rest =>
    -- unknown directives are reported where they stand, and nothing else of the object is parsed
    rw [Block.parse_of_strangers hstrangers, ← hstrangers]
    refine pointsInto_refuseEach fun d hd => ?_
    obtain ⟨stranger, hstranger, rfl⟩ := List.mem_map.mp hd
    obtain ⟨tree, hfield⟩ := Directive.exists_of_mem_strangers hstranger
    exact Fault.pointsInto_on (of_decide_eq_false rfl) (h.field hfield)
  | nil =>
    rw [Block.parse_of_no_strangers hstrangers]
    refine (pointsInto_optional fun q hq => ?_).both
      ((pointsInto_body hcount fields h).repeated fun q hq => ?_)
    · obtain ⟨tree, htree, rfl⟩ := Option.map_eq_some_iff.mp hq
      exact pointsInto_predicate hcount (h.field (mem_of_field? htree))
    · obtain ⟨tree, htree, rfl⟩ := Option.map_eq_some_iff.mp hq
      have hless := sizeOf_field?_lt htree
      exact pointsInto_node hcount tree (h.field (mem_of_field? htree))
termination_by (sizeOf fields, 2)

/-- The body of an object, without its repetition. -/
theorem pointsInto_body (hcount : document.Countable) (fields : List (String × Json))
    {path : DocPath} (h : document.HasNode path (.object fields)) :
    (Block.parseBody path fields).PointsInto document := by
  unfold Block.parseBody
  cases hclauses : field? fields Directive.clauses with
  | some tree =>
    have hless := sizeOf_field?_lt hclauses
    have hnode := h.field (mem_of_field? hclauses)
    refine (pointsInto_complain fun d hd => ?_).andThen ?_
    · rcases List.mem_append.mp hd with hvalue | hentries
      · obtain ⟨-, hd⟩ := List.mem_ite_nil_right.mp hvalue
        rw [List.mem_singleton.mp hd]
        exact Fault.pointsInto_on (of_decide_eq_false rfl) h
      · obtain ⟨-, hd⟩ := List.mem_ite_nil_right.mp hentries
        rw [List.mem_singleton.mp hd]
        exact Fault.pointsInto_on (of_decide_eq_false rfl) h
    · match tree, hless, hnode with
      | .array items, hless, hnode =>
        have hitems : sizeOf items < sizeOf fields := by
          simp only [array.sizeOf_spec] at hless
          omega
        rw [ofJson, parseClauses]
        exact (pointsInto_clauseItems hcount items hnode.items).map _
      | .null, _, hnode | .bool _, _, hnode | .number _, _, hnode | .text _, _, hnode
      | .object _, _, hnode =>
        rw [ofJson, parseClauses]
        exact pointsInto_refuse (of_decide_eq_false rfl) hnode
  | none =>
    cases hvalue : field? fields Directive.value with
    | some tree =>
      have hless := sizeOf_field?_lt hvalue
      exact pointsInto_node hcount tree (h.field (mem_of_field? hvalue))
    | none => exact (pointsInto_entries hcount fields h.fields).map _
termination_by (sizeOf fields, 1)

theorem pointsInto_clauseItems (hcount : document.Countable) (items : List Json) {path : DocPath}
    {i : Nat} (h : document.HasItems path i items) :
    (parseClauseItems path i (ofJsonItems items)).PointsInto document := by
  match items, h with
  | [], _ =>
    rw [ofJsonItems, parseClauseItems]
    exact pointsInto_pure []
  | .object fields :: rest, h =>
    rw [ofJsonItems, ofJson, parseClauseItems]
    exact (((pointsInto_object hcount fields h.head).nested h.head).both
      (pointsInto_clauseItems hcount rest h.tail)).map _
  | .null :: rest, h | .bool _ :: rest, h | .number _ :: rest, h | .text _ :: rest, h
  | .array _ :: rest, h =>
    rw [ofJsonItems, ofJson, parseClauseItems]
    · exact (pointsInto_refuse (of_decide_eq_false rfl) h.head).andThen
        (pointsInto_clauseItems hcount rest h.tail)
    · simp
termination_by (sizeOf items, 0)

theorem pointsInto_entries (hcount : document.Countable) (fields : List (String × Json))
    {path : DocPath} (h : document.HasFields path fields) :
    (parseEntries path (entriesOf fields)).PointsInto document := by
  match fields, h with
  | [], _ =>
    rw [entriesOf, parseEntries]
    exact pointsInto_pure []
  | (name, tree) :: rest, h =>
    obtain ⟨hfield, hrest⟩ := List.forall_mem_cons.mp h
    rw [entriesOf]
    split_ifs with hcontainer
    · subst hcontainer
      rw [parseEntries]
      exact ((pointsInto_branches hcount tree hfield).both
        (pointsInto_entries hcount rest hrest)).map _
    · exact pointsInto_entries hcount rest hrest
    · rw [parseEntries]
      exact ((pointsInto_node hcount tree hfield).both (pointsInto_entries hcount rest hrest)).map _
termination_by (sizeOf fields, 0)

theorem pointsInto_branches (hcount : document.Countable) (tree : Json) {path : DocPath}
    (h : document.HasNode path tree) :
    (parseBranches path (ofJson tree)).PointsInto document := by
  match tree, h with
  | .object fields, h =>
    rw [ofJson, parseBranches]
    exact (((pointsInto_object hcount fields h).map _).nested h).map _
  | .array items, h =>
    rw [ofJson, parseBranches]
    exact pointsInto_branchItems hcount items h.items
  | .null, h | .bool _, h | .number _, h | .text _, h =>
    rw [ofJson, parseBranches]
    exact pointsInto_refuse (of_decide_eq_false rfl) h
termination_by (sizeOf tree, 0)

theorem pointsInto_branchItems (hcount : document.Countable) (items : List Json) {path : DocPath}
    {i : Nat} (h : document.HasItems path i items) :
    (parseBranchItems path i (ofJsonItems items)).PointsInto document := by
  match items, h with
  | [], _ =>
    rw [ofJsonItems, parseBranchItems]
    exact pointsInto_pure []
  | .object fields :: rest, h =>
    rw [ofJsonItems, ofJson, parseBranchItems]
    exact ((((pointsInto_object hcount fields h.head).map _).nested h.head).both
      (pointsInto_branchItems hcount rest h.tail)).map _
  | .null :: rest, h | .bool _ :: rest, h | .number _ :: rest, h | .text _ :: rest, h
  | .array _ :: rest, h =>
    rw [ofJsonItems, ofJson, parseBranchItems]
    · exact (pointsInto_refuse (of_decide_eq_false rfl) h.head).andThen
        (pointsInto_branchItems hcount rest h.tail)
    · simp
termination_by (sizeOf items, 0)

end

end Parse

/-- **Every error points at a place of the document**: its path leads to a node, and its column is
    one of a text. -/
theorem Parsed.pointsInto_of_mem_errors {document : Json} (hcount : document.Countable)
    (options : ParseOptions) {d : Diagnostic}
    (hd : d ∈ (ofDocument options document).report.errors) : d.PointsInto document := by
  rw [report_ofDocument] at hd
  exact Parse.pointsInto_node hcount document .root options 0 _ (by simp [Report.withLimit]) d hd

/-- A document with a marker in a marker, a marker without content, a marker without an end, a
    filter without a name, a condition without a namespace and a field that is no directive. -/
theorem Parsed.pointsInto_of_mem_errors_mixed :
    let document : Json := .object
      [("@if", .object [("StringEquals", .object [("name", .null)])]),
        ("list", .array [.text "a $\x7buser:name | or:$\x7bx\x7d $\x7b",
          .text "\u00e9 $\x7b \x7d $\x7buser:name | \x7d"]),
        ("a/b", .object [("@else", .null)])]
    let list := DocPath.root.field "list"
    let condition := DocPath.root.field "@if" |>.field "StringEquals" |>.field "name"
    let errors : List Diagnostic :=
      [(Fault.missingNamespace "name").on condition,
        Fault.nestedMarker.atColumn (list.index 0) 20,
        Fault.unclosedMarker.atColumn (list.index 0) 25,
        Fault.emptyMarker.atColumn (list.index 1) 3,
        Fault.emptyFilterName.atColumn (list.index 1) 21,
        (Fault.unknownDirective "@else").on (DocPath.root.field "a/b" |>.field "@else")]
    document.Countable ∧ (ofDocument .default document).report.errors = errors ∧
      ∀ d ∈ errors, d.PointsInto document := by
  intro document list condition errors
  have hcount : document.Countable := by decide +kernel
  have herrors : (ofDocument .default document).report.errors = errors := by decide +kernel
  refine ⟨hcount, herrors, fun d hd => ?_⟩
  rw [← herrors] at hd
  exact pointsInto_of_mem_errors hcount .default hd

end Stencil
