import Stencil.Proofs.Document.Plain

/-!
# What parses are put together from

The parse of a document reports in three ways only: it refuses what is malformed, it takes over what
is wrong with a text, and it does not enter a node. All else is putting parses together. This file
fixes

* the parses that are put together in this way (`Parse.Built`), so that what every step does is
  shown once for each way of putting together, and then holds of all parses;
* the pairs of parses that are put together in the same way, the one at the places of a document and
  the other at the same places under a path (`Parse.Moved`);
* that the parse of every node, of every object and of every condition at a place, and the same
  parse at the place under a path, are such a pair (`Moved.node`, `Moved.object`,
  `Moved.predicate`); so each of them is put together in this way (`Moved.built`);
* the texts that an outline has (`Outline.texts`), which are texts of the document.
-/

namespace Stencil

/-! ## 1. Places under a path -/

/-- The path that leads through a second one first. -/
def DocPath.under (p pre : DocPath) : DocPath :=
  ⟨pre.segments ++ p.segments⟩

@[simp] theorem DocPath.under_root (p : DocPath) : p.under .root = p := rfl

@[simp] theorem DocPath.root_under (pre : DocPath) : DocPath.root.under pre = pre := by
  rw [under, root, List.append_nil]

@[simp] theorem DocPath.field_under (p pre : DocPath) (name : String) :
    (p.under pre).field name = (p.field name).under pre := by
  simp [under, field]

@[simp] theorem DocPath.index_under (p pre : DocPath) (i : Nat) :
    (p.under pre).index i = (p.index i).under pre := by
  simp [under, index]

/-- The diagnostic of a document that stands under a path. -/
def Diagnostic.under (d : Diagnostic) (pre : DocPath) : Diagnostic :=
  { d with path := d.path.under pre }

@[simp] theorem Fault.on_under (f : Fault) (path pre : DocPath) :
    (f.on path).under pre = f.on (path.under pre) := rfl

@[simp] theorem Fault.atColumn_under (f : Fault) (path pre : DocPath) (column : UInt32) :
    (f.atColumn path column).under pre = f.atColumn (path.under pre) column := rfl

namespace Parse

variable {α β γ : Type}

/-! ## 2. Putting together -/

/-- What comes after a run: a parse that depends on its result. Without a result nothing comes. -/
def proceed (f : α → Parse β) (options : ParseOptions) (depth : Nat) :
    Option α × Findings → Option β × Findings
  | (none, after) => (none, after)
  | (some a, after) => f a options depth after

/-- A parse, and a second one that depends on its result. -/
def bind (p : Parse α) (f : α → Parse β) : Parse β :=
  fun options depth found => proceed f options depth (p options depth found)

theorem Yields.of_bind {p : Parse α} {f : α → Parse β} {b : β} (h : (p.bind f).Yields b) :
    ∃ a, p.Yields a ∧ (f a).Yields b := by
  obtain ⟨options, depth, found, after, heq⟩ := h
  unfold Parse.bind at heq
  rcases hrun : p options depth found with ⟨_ | a, between⟩
  · rw [hrun] at heq
    cases heq
  · rw [hrun] at heq
    exact ⟨a, ⟨options, depth, found, between, hrun⟩, ⟨options, depth, between, after, heq⟩⟩

/-- The parses that are put together from results, faults and texts. `readable` holds of the texts
    that are parsed. -/
inductive Built (readable : String → Prop) : {α : Type} → Parse α → Prop where
  | pure {α : Type} (a : α) : Built readable (pure a)
  | refuseEach {α : Type} {ds : List Diagnostic} (h : ds ≠ []) :
      Built readable (refuseEach ds : Parse α)
  | text {s : String} (path : DocPath) (h : readable s) : Built readable (text s path)
  | map {α β : Type} {p : Parse α} (f : α → β) (hp : Built readable p) : Built readable (p.map f)
  | both {α β : Type} {p : Parse α} {q : Parse β} (hp : Built readable p)
      (hq : Built readable q) : Built readable (p.both q)
  | bind {α β : Type} {p : Parse α} {f : α → Parse β} (hp : Built readable p)
      (hf : ∀ a, Built readable (f a)) : Built readable (p.bind f)
  | nested {α : Type} {p : Parse α} (path : DocPath) (hp : Built readable p) :
      Built readable (nested path p)

/-- The pairs of parses that are put together in the same way, the second one under a path. -/
inductive Moved (readable : String → Prop) (pre : DocPath) :
    {α : Type} → Parse α → Parse α → Prop where
  | pure {α : Type} (a : α) : Moved readable pre (pure a) (pure a)
  | refuseEach {α : Type} {ds : List Diagnostic} (h : ds ≠ []) :
      Moved readable pre (refuseEach ds : Parse α) (refuseEach (ds.map fun d => d.under pre))
  | text {s : String} (path : DocPath) (h : readable s) :
      Moved readable pre (text s path) (text s (path.under pre))
  | map {α β : Type} {p q : Parse α} (f : α → β) (h : Moved readable pre p q) :
      Moved readable pre (p.map f) (q.map f)
  | both {α β : Type} {p q : Parse α} {p' q' : Parse β} (h : Moved readable pre p q)
      (h' : Moved readable pre p' q') : Moved readable pre (p.both p') (q.both q')
  | bind {α β : Type} {p q : Parse α} {f g : α → Parse β} (h : Moved readable pre p q)
      (hf : ∀ a, Moved readable pre (f a) (g a)) : Moved readable pre (p.bind f) (q.bind g)
  | nested {α : Type} {p q : Parse α} (path : DocPath) (h : Moved readable pre p q) :
      Moved readable pre (nested path p) (nested (path.under pre) q)

namespace Moved

variable {readable : String → Prop} {pre : DocPath}

theorem built {p q : Parse α} (h : Moved readable pre p q) : Built readable p := by
  induction h with
  | pure a => exact .pure a
  | refuseEach h => exact .refuseEach h
  | text path h => exact .text path h
  | map f _ ih => exact ih.map f
  | both _ _ ih ih' => exact ih.both ih'
  | bind _ _ ih ihf => exact ih.bind ihf
  | nested path _ ih => exact ih.nested path

theorem built_under {p q : Parse α} (h : Moved readable pre p q) : Built readable q := by
  induction h with
  | pure a => exact .pure a
  | refuseEach h => exact .refuseEach (mt List.map_eq_nil_iff.mp h)
  | text path h => exact .text (path.under pre) h
  | map f _ ih => exact ih.map f
  | both _ _ ih ih' => exact ih.both ih'
  | bind _ _ ih ihf => exact ih.bind ihf
  | nested path _ ih => exact ih.nested (path.under pre)

theorem refuse (f : Fault) (path : DocPath) :
    Moved readable pre (refuse (f.on path) : Parse α) (refuse (f.on (path.under pre))) :=
  refuseEach (List.cons_ne_nil (f.on path) [])

theorem andThen {p q : Parse α} {p' q' : Parse β} (h : Moved readable pre p q)
    (h' : Moved readable pre p' q') : Moved readable pre (p.andThen p') (q.andThen q') :=
  (h.both h').map Prod.snd

theorem optional {γ : Type} {p q : γ → Parse α} (found : Option γ)
    (h : ∀ c, found = some c → Moved readable pre (p c) (q c)) :
    Moved readable pre (optional (found.map p)) (optional (found.map q)) := by
  cases found with
  | none => exact .pure none
  | some c => exact (h c rfl).map some

theorem complain (ds : List Diagnostic) :
    Moved readable pre (complain ds) (complain (ds.map fun d => d.under pre)) := by
  cases ds with
  | nil => exact .pure ()
  | cons d rest => exact .refuseEach (List.cons_ne_nil d rest)

theorem repeated {body body' : Parse Expr} {source source' : Option (Parse Expr)}
    (h : Moved readable pre body body') (hsource : Option.Rel (Moved readable pre) source source') :
    Moved readable pre (Parse.repeated body source) (Parse.repeated body' source') := by
  cases hsource with
  | none => exact h
  | some hsource => exact (h.both hsource).map _

end Moved

end Parse

/-! ## 3. Conditions -/

/-- A condition object is the conjunction of what its operators hold. -/
theorem Condition.object_eq_bind (path : DocPath) (fields : List (String × Json)) :
    object path fields = (operators path fields).bind (conjunction path) := by
  funext options depth found
  unfold object Parse.bind
  rcases operators path fields options depth found with ⟨_ | comparisons, after⟩ <;> rfl

namespace Parse.Moved

open Condition

variable {readable : String → Prop} (pre : DocPath)

theorem literal (path : DocPath) (tree : Json) :
    Moved readable pre (literal path tree) (literal (path.under pre) tree) := by
  cases tree with
  | array items => exact refuse _ path
  | object fields => exact refuse _ path
  | null => exact .pure _
  | bool b => exact .pure _
  | number n => exact .pure _
  | text s => exact .pure _

theorem alternatives (key : Key) (operator : String) (path : DocPath) (i : Nat)
    (trees : List Json) : Moved readable pre (alternatives key operator path i trees)
      (alternatives key operator (path.under pre) i trees) := by
  induction trees generalizing i with
  | nil => exact .pure []
  | cons tree rest ih =>
    have hfirst : Moved readable pre _ _ := literal pre (path.index i) tree
    rw [← DocPath.index_under] at hfirst
    exact (hfirst.both (ih (i + 1))).map _

theorem entry (operator : String) (path : DocPath) (name : String) (tree : Json) :
    Moved readable pre (entry operator path name tree)
      (entry operator (path.under pre) name tree) := by
  unfold Condition.entry
  rw [DocPath.field_under]
  cases Key.parse? name with
  | none => exact refuse _ (path.field name)
  | some key =>
    cases tree with
    | array options => exact (alternatives pre key operator _ 0 options).map _
    | null => exact (literal pre _ _).map _
    | bool b => exact (literal pre _ _).map _
    | number n => exact (literal pre _ _).map _
    | text s => exact (literal pre _ _).map _
    | object fields => exact (literal pre _ _).map _

theorem entries (operator : String) (path : DocPath) (fields : List (String × Json)) :
    Moved readable pre (entries operator path fields)
      (entries operator (path.under pre) fields) := by
  induction fields with
  | nil => exact .pure []
  | cons field rest ih => exact ((entry pre operator path field.1 field.2).both ih).map _

theorem operators (path : DocPath) (fields : List (String × Json)) :
    Moved readable pre (operators path fields) (operators (path.under pre) fields) := by
  induction fields with
  | nil => exact .pure []
  | cons field rest ih =>
    obtain ⟨operator, tree⟩ := field
    have hrefused : Moved readable pre
        (Parse.refuse ((Fault.conditionNotObject operator).on (path.field operator)) : Parse Unit)
        (Parse.refuse ((Fault.conditionNotObject operator).on ((path.field operator).under pre))) :=
      refuse _ _
    rw [← DocPath.field_under] at hrefused
    cases tree with
    | object conditions =>
      have hfirst : Moved readable pre _ _ :=
        entries pre operator (path.field operator) conditions
      rw [← DocPath.field_under] at hfirst
      exact (hfirst.both ih).map _
    | null => exact hrefused.andThen ih
    | bool b => exact hrefused.andThen ih
    | number n => exact hrefused.andThen ih
    | text s => exact hrefused.andThen ih
    | array items => exact hrefused.andThen ih

theorem conjunction (path : DocPath) (found : List Expr) :
    Moved readable pre (conjunction path found) (conjunction (path.under pre) found) := by
  match found with
  | [] => exact refuse _ path
  | [only] => exact .pure only
  | first :: second :: rest => exact .pure (Expr.all (first :: second :: rest))

theorem condition (path : DocPath) (fields : List (String × Json)) :
    Moved readable pre (Condition.object path fields)
      (Condition.object (path.under pre) fields) := by
  rw [object_eq_bind, object_eq_bind]
  exact (operators pre path fields).bind (conjunction pre path)

theorem predicate (path : DocPath) {tree : Json} (h : ∀ s ∈ tree.texts, readable s) :
    Moved readable pre (predicate path tree) (predicate (path.under pre) tree) := by
  cases tree with
  | text s => exact .text path (h s (List.mem_singleton.mpr rfl))
  | bool b => exact .pure _
  | object fields => exact condition pre path fields
  | null => exact refuse _ path
  | number n => exact refuse _ path
  | array items => exact refuse _ path

end Parse.Moved

/-! ## 4. The texts of an outline -/

mutual

/-- The texts of an outline. -/
def Outline.texts : Outline → List String
  | .null => []
  | .bool _ => []
  | .number _ => []
  | .text s => [s]
  | .sequence items => Outline.itemTexts items
  | .object block => block.texts

/-- The texts of the elements of a sequence. -/
def Outline.itemTexts : List Outline → List String
  | [] => []
  | item :: rest => item.texts ++ Outline.itemTexts rest

/-- The texts of a directive, if an object has it. -/
def Outline.directiveTexts : Option Outline → List String
  | none => []
  | some node => node.texts

/-- The texts of an object: those of its condition, of its other directives and of its entries. -/
def Block.texts : Block → List String
  | .mk _ guard clauses value source entries =>
    guard.elim [] Json.texts ++ Outline.directiveTexts clauses ++ Outline.directiveTexts value ++
      Outline.directiveTexts source ++ Block.entryTexts entries

/-- The texts of the entries of an object. -/
def Block.entryTexts : List BlockEntry → List String
  | [] => []
  | .field _ node :: rest => node.texts ++ Block.entryTexts rest
  | .container node :: rest => node.texts ++ Block.entryTexts rest

end

theorem Outline.mem_directiveTexts_getD {node : Outline} {directive : Option Outline} {s : String}
    (h : s ∈ directiveTexts (some (directive.getD node))) :
    s ∈ node.texts ∨ s ∈ directiveTexts directive := by
  cases directive with
  | none => exact .inl h
  | some _ => exact .inr h

/-- The texts of an object with one more field are those of the field and those of the object. -/
theorem Block.mem_texts_cons {name : String} {tree : Json} {node : Outline} {block : Block}
    {s : String} (h : s ∈ (Block.cons name tree node block).texts) :
    s ∈ tree.texts ∨ s ∈ node.texts ∨ s ∈ block.texts := by
  obtain ⟨unknown, guard, clauses, value, source, entries⟩ := block
  have hguard : s ∈ (some (guard.getD tree)).elim [] Json.texts →
      s ∈ tree.texts ∨ s ∈ guard.elim [] Json.texts := by
    cases guard with
    | none => exact .inl
    | some _ => exact .inr
  have hdirective (directive : Option Outline) :
      s ∈ Outline.directiveTexts (some (directive.getD node)) →
        s ∈ node.texts ∨ s ∈ Outline.directiveTexts directive :=
    Outline.mem_directiveTexts_getD
  unfold Block.cons at h
  split_ifs at h
  all_goals
    simp only [Block.texts, Block.entryTexts, List.mem_append] at h ⊢
    grind

mutual

/-- **The texts of an outline are texts of the document.** -/
theorem Outline.mem_texts_ofJson : ∀ {tree : Json} {s : String},
    s ∈ (Outline.ofJson tree).texts → s ∈ tree.texts
  | .null, _, h | .bool _, _, h | .number _, _, h | .text _, _, h => h
  | .array _, _, h => Outline.mem_itemTexts_ofJsonItems h
  | .object _, _, h => Outline.mem_texts_ofJsonFields h

theorem Outline.mem_itemTexts_ofJsonItems : ∀ {items : List Json} {s : String},
    s ∈ Outline.itemTexts (Outline.ofJsonItems items) → s ∈ Json.itemTexts items
  | [], _, h => h
  | item :: rest, _, h => by
    rw [Outline.ofJsonItems, Outline.itemTexts, List.mem_append] at h
    rw [Json.itemTexts, List.mem_append]
    exact h.imp Outline.mem_texts_ofJson Outline.mem_itemTexts_ofJsonItems

theorem Outline.mem_texts_ofJsonFields : ∀ {fields : List (String × Json)} {s : String},
    s ∈ (Outline.ofJsonFields fields).texts → s ∈ Json.fieldTexts fields
  | [], _, h => h
  | (name, tree) :: rest, _, h => by
    rw [Json.fieldTexts, List.mem_append]
    rw [Outline.ofJsonFields] at h
    rcases Block.mem_texts_cons h with htree | hnode | hrest
    · exact .inl htree
    · exact .inl (Outline.mem_texts_ofJson hnode)
    · exact .inr (Outline.mem_texts_ofJsonFields hrest)

end

/-! ## 5. Nodes -/

namespace Parse.Moved

variable {readable : String → Prop} (pre : DocPath)

theorem strangers (path : DocPath) (name : String) (rest : List String) :
    Moved readable pre (Parse.refuseEach (Block.strangers path (name :: rest)) :
        Parse (Option Expr × Expr))
      (Parse.refuseEach (Block.strangers (path.under pre) (name :: rest))) := by
  have hstrangers : Block.strangers (path.under pre) (name :: rest) =
      (Block.strangers path (name :: rest)).map fun d => d.under pre := by
    simp [Block.strangers]
  rw [hstrangers]
  exact .refuseEach (List.cons_ne_nil _ _)

theorem clashes (path : DocPath) (hasValue hasEntries : Bool) :
    Moved readable pre (Parse.complain (Block.clashes path hasValue hasEntries))
      (Parse.complain (Block.clashes (path.under pre) hasValue hasEntries)) := by
  have hclashes : Block.clashes (path.under pre) hasValue hasEntries =
      (Block.clashes path hasValue hasEntries).map fun d => d.under pre := by
    cases hasValue <;> cases hasEntries <;> rfl
  rw [hclashes]
  exact complain _

mutual

/-- **The parse of every node is put together** from results, faults and the texts of the node, and
    in the same way under every path. -/
theorem node : ∀ (node : Outline) (path : DocPath), (∀ s ∈ node.texts, readable s) →
    Moved readable pre (Outline.parse path node) (Outline.parse (path.under pre) node)
  | .null, path, _ | .bool _, path, _ | .number _, path, _ => by
    rw [Outline.parse, Outline.parse]
    exact .nested path (.pure _)
  | .text s, path, h => by
    rw [Outline.parse, Outline.parse]
    exact .nested path (.text path (h s (List.mem_singleton.mpr rfl)))
  | .sequence list, path, h => by
    rw [Outline.parse, Outline.parse]
    exact .nested path ((items list path 0 h).map _)
  | .object block, path, h => by
    rw [Outline.parse, Outline.parse]
    exact .nested path ((object block path h).map _)

theorem items : ∀ (list : List Outline) (path : DocPath) (i : Nat),
    (∀ s ∈ Outline.itemTexts list, readable s) →
    Moved readable pre (parseItems path i list) (parseItems (path.under pre) i list)
  | [], path, i, _ => by
    rw [parseItems, parseItems]
    exact .pure []
  | item :: rest, path, i, h => by
    rw [Outline.itemTexts, List.forall_mem_append] at h
    rw [parseItems, parseItems, DocPath.index_under]
    exact ((node item (path.index i) h.1).both (items rest path (i + 1) h.2)).map _

theorem object : ∀ (block : Block) (path : DocPath), (∀ s ∈ block.texts, readable s) →
    Moved readable pre (Block.parse path block) (Block.parse (path.under pre) block)
  | .mk (name :: rest) guard clauses value source entries, path, _ => by
    rw [Block.parse.eq_def, Block.parse.eq_def]
    exact strangers pre path name rest
  | .mk [] guard clauses value source entries, path, h => by
    simp only [Block.texts, List.forall_mem_append] at h
    obtain ⟨⟨⟨⟨hguard, hclauses⟩, hvalue⟩, hsource⟩, hentries⟩ := h
    rw [Block.parse.eq_def, Block.parse.eq_def]
    simp only [DocPath.field_under]
    refine both (optional guard fun tree hfound => ?_) (repeated ?_ ?_)
    · subst hfound
      exact predicate pre _ hguard
    · cases clauses with
      | some found => exact (clashes pre path _ _).andThen (clausesOf found _ hclauses)
      | none =>
        cases value with
        | some found => exact node found _ hvalue
        | none => exact (entriesOf entries path hentries).map _
    · cases source with
      | none => exact .none
      | some found => exact .some (node found _ hsource)

theorem entriesOf : ∀ (list : List BlockEntry) (path : DocPath),
    (∀ s ∈ Block.entryTexts list, readable s) →
    Moved readable pre (parseEntries path list) (parseEntries (path.under pre) list)
  | [], path, _ => by
    rw [parseEntries, parseEntries]
    exact .pure []
  | .field name found :: rest, path, h => by
    rw [Block.entryTexts, List.forall_mem_append] at h
    rw [parseEntries, parseEntries, DocPath.field_under]
    exact ((node found (path.field name) h.1).both (entriesOf rest path h.2)).map _
  | .container found :: rest, path, h => by
    rw [Block.entryTexts, List.forall_mem_append] at h
    rw [parseEntries, parseEntries, DocPath.field_under]
    exact ((branchesOf found _ h.1).both (entriesOf rest path h.2)).map _

theorem clausesOf : ∀ (node : Outline) (path : DocPath), (∀ s ∈ node.texts, readable s) →
    Moved readable pre (parseClauses path node) (parseClauses (path.under pre) node)
  | .null, path, _ | .bool _, path, _ | .number _, path, _ | .text _, path, _
  | .object _, path, _ => by
    rw [parseClauses, parseClauses]
    exact refuse _ path
  | .sequence list, path, h => by
    rw [parseClauses, parseClauses]
    exact (clauseItems list path 0 h).map _

theorem clauseItems : ∀ (list : List Outline) (path : DocPath) (i : Nat),
    (∀ s ∈ Outline.itemTexts list, readable s) →
    Moved readable pre (parseClauseItems path i list) (parseClauseItems (path.under pre) i list)
  | [], path, i, _ => by
    rw [parseClauseItems, parseClauseItems]
    exact .pure []
  | .object block :: rest, path, i, h => by
    rw [Outline.itemTexts, List.forall_mem_append] at h
    rw [parseClauseItems, parseClauseItems, DocPath.index_under]
    exact ((object block _ h.1).nested _ |>.both (clauseItems rest path (i + 1) h.2)).map _
  | .null :: rest, path, i, h | .bool _ :: rest, path, i, h | .number _ :: rest, path, i, h
  | .text _ :: rest, path, i, h | .sequence _ :: rest, path, i, h => by
    rw [Outline.itemTexts, List.forall_mem_append] at h
    rw [parseClauseItems, parseClauseItems, DocPath.index_under]
    · exact (refuse _ _).andThen (clauseItems rest path (i + 1) h.2)
    · simp
    · simp

theorem branchesOf : ∀ (node : Outline) (path : DocPath), (∀ s ∈ node.texts, readable s) →
    Moved readable pre (parseBranches path node) (parseBranches (path.under pre) node)
  | .null, path, _ | .bool _, path, _ | .number _, path, _ | .text _, path, _ => by
    rw [parseBranches, parseBranches]
    exact refuse _ path
  | .object block, path, h => by
    rw [parseBranches, parseBranches]
    exact (((object block path h).map _).nested path).map _
  | .sequence list, path, h => by
    rw [parseBranches, parseBranches]
    exact branchItems list path 0 h

theorem branchItems : ∀ (list : List Outline) (path : DocPath) (i : Nat),
    (∀ s ∈ Outline.itemTexts list, readable s) →
    Moved readable pre (parseBranchItems path i list) (parseBranchItems (path.under pre) i list)
  | [], path, i, _ => by
    rw [parseBranchItems, parseBranchItems]
    exact .pure []
  | .object block :: rest, path, i, h => by
    rw [Outline.itemTexts, List.forall_mem_append] at h
    rw [parseBranchItems, parseBranchItems, DocPath.index_under]
    exact ((((object block _ h.1).map _).nested _).both (branchItems rest path (i + 1) h.2)).map _
  | .null :: rest, path, i, h | .bool _ :: rest, path, i, h | .number _ :: rest, path, i, h
  | .text _ :: rest, path, i, h | .sequence _ :: rest, path, i, h => by
    rw [Outline.itemTexts, List.forall_mem_append] at h
    rw [parseBranchItems, parseBranchItems, DocPath.index_under]
    · exact (refuse _ _).andThen (branchItems rest path (i + 1) h.2)
    · simp
    · simp

end

end Parse.Moved

end Stencil
