import Stencil.Proofs.Document.Conditions
import Stencil.Proofs.Document.Reporting
import Stencil.Proofs.Json
import Stencil.Proofs.Marker.RoundTrip

/-!
# Expressions that come from documents

Not every expression comes from a document. This file fixes

* which expressions do, node by node (`Expr.Wf`): what texts and calls can hold, which
  fields an object can have, and that comparisons stand in predicates only;
* that a parse gives no others (`Parsed.wf_of_toExcept`): it is shown for texts, then for
  conditions, and by one induction for documents.
-/

namespace Stencil

/-! ## 1. Texts and calls -/

/-- A text in which no marker opens. -/
def Text.Unmarked (s : String) : Prop :=
  ¬['$', '\x7b'] <:+: s.toList

/-- A value that a document holds as it stands. -/
inductive Value.IsLiteral : Value → Prop where
  | null : IsLiteral .null
  | bool (b : Bool) : IsLiteral (.bool b)
  | number (n : Number) : IsLiteral (.number n)
  | text {s : String} (h : Text.Unmarked s) : IsLiteral (.text s)

/-- A call of a key that can be read, with filters that have names. -/
structure Call.Wf (c : Call) : Prop where
  key : c.key.Wf
  named : ∀ f ∈ c.filters, f.name ≠ ""

/-- A text with markers: there is a call in it, and no text that runs into another one or could
    not be told from a marker. -/
structure Template.Wf (pieces : List Piece) : Prop where
  exists_call : ∃ c, .call c ∈ pieces
  calls : ∀ c, .call c ∈ pieces → c.Wf
  text_ne : ∀ s, .text s ∈ pieces → s ≠ ""
  unmarked : ∀ s, .text s ∈ pieces → Text.Unmarked s
  apart : pieces.IsChain Piece.Apart

theorem Text.unmarked_of_not_hasOpening {s : String} (h : Template.hasOpening s.toList = false) :
    Unmarked s := by
  intro hinfix
  have hfalse := Template.hasOpening_of_infix hinfix h
  cases hfalse

/-- What a marker can hold is well formed. -/
theorem Call.Printable.wf {c : Call} (h : c.Printable) : c.Wf where
  key :=
    { space_ne := h.space_ne
      name_ne := h.name_ne
      space_trimmed := h.space.trimmed
      name_trimmed := by
        have htrim := trim_intercalate h.trimmed
        rwa [Key.nameParts_eq, Text.intercalate_cutAtColons] at htrim
      uncut := h.space.uncut }
  named := h.filter_ne

theorem Template.Printable.wf {pieces : List Piece} (h : Printable pieces) :
    Wf pieces where
  exists_call := by
    obtain ⟨p, hp, hcall⟩ := h.exists_call
    cases p with
    | text s => cases hcall
    | call c => exact ⟨c, hp⟩
  calls c hc := Call.Printable.wf (h.stands _ hc)
  text_ne s hs := (h.stands _ hs).1
  unmarked s hs := Text.unmarked_of_not_hasOpening (h.stands _ hs).2
  apart := h.apart

/-! ## 2. Expressions -/

namespace Expr

/-- The names of the fields among the entries of an object. -/
def fieldNames : List Entry → List String
  | [] => []
  | .field name _ :: rest => name :: fieldNames rest
  | .merge _ :: rest => fieldNames rest

/-- A value or a text that stands for itself. -/
inductive IsLeaf : Expr → Prop where
  | const {v : Value} (h : v.IsLiteral) : IsLeaf (.const v)
  | interpolated {pieces : List Piece} (h : Template.Wf pieces) :
      IsLeaf (.interpolated pieces)

/-- A comparison of a key with one literal. -/
inductive IsComparison : Expr → Prop where
  | call {c : Call} (h : c.Wf) : IsComparison (.call c)

/-- A comparison of a key with one literal or with several. -/
inductive IsTest : Expr → Prop where
  | single {e : Expr} (h : e.IsComparison) : IsTest e
  | any {es : List Expr} (h : ∀ e ∈ es, e.IsComparison) : IsTest (.any es)

/-- A predicate: a value, a text, a test or the conjunction of at least two tests. -/
inductive IsPredicate : Expr → Prop where
  | leaf {e : Expr} (h : e.IsLeaf) : IsPredicate e
  | test {e : Expr} (h : e.IsTest) : IsPredicate e
  | all {es : List Expr} (hlength : 2 ≤ es.length) (h : ∀ e ∈ es, e.IsTest) :
      IsPredicate (.all es)

end Expr

mutual

/-- An expression that can come from a document. Calls, conjunctions and disjunctions are none by
    themselves: they occur in predicates. -/
inductive Expr.Wf : Expr → Prop where
  | leaf {e : Expr} (h : e.IsLeaf) : Expr.Wf e
  | tree {entries : List Entry} (hnames : (Expr.fieldNames entries).Nodup)
      (hplain : ∀ name ∈ Expr.fieldNames entries, name.toList.head? ≠ some '@')
      (h : ∀ entry ∈ entries, entry.Wf) : Expr.Wf (.tree entries)
  | list {items : List Expr} (h : ∀ item ∈ items, item.Wf) : Expr.Wf (.list items)
  | repetition {source body : Expr} (hsource : source.Wf) (hbody : body.Wf) :
      Expr.Wf (.repetition source body)
  | conditional {clauses : List Clause} (h : ∀ clause ∈ clauses, clause.Wf) :
      Expr.Wf (.conditional clauses)

/-- An entry with such an expression. -/
inductive Entry.Wf : Entry → Prop where
  | field (name : String) {e : Expr} (h : e.Wf) : Entry.Wf (.field name e)
  | merge {e : Expr} (h : e.Wf) : Entry.Wf (.merge e)

/-- A clause with such a result. -/
inductive Clause.Wf : Clause → Prop where
  | mk {predicate : Option Expr} {result : Expr} (hpredicate : ∀ p ∈ predicate, p.IsPredicate)
      (hresult : result.Wf) : Clause.Wf (.mk predicate result)

end

theorem Clause.Wf.guarded {predicate : Option Expr} {result : Expr}
    (h : Clause.Wf (.mk predicate result)) :
    (Expr.guarded (predicate, result)).Wf := by
  cases predicate with
  | none =>
    obtain ⟨-, hresult⟩ := h
    exact hresult
  | some p => exact .conditional (List.forall_mem_singleton.mpr h)

/-! ## 3. Texts and conditions as they are parsed -/

/-- **What a text denotes is well formed.** -/
theorem Template.isLeaf_of_read {s : String} {path : DocPath} {e : Expr}
    (h : read s path = .ok e) : e.IsLeaf := by
  cases hopening : hasOpening s.toList with
  | false =>
    rw [read_of_not_hasOpening _ hopening] at h
    obtain rfl := Except.ok.inj h
    exact .const (.text (Text.unmarked_of_not_hasOpening hopening))
  | true =>
    obtain ⟨pieces, rfl, hpieces⟩ := printable_of_read hopening h
    exact .interpolated hpieces.wf

/-- What is related to something is good, if everything related is. -/
theorem forall_of_forall₂ {α β : Type} {r : α → β → Prop} {good : β → Prop} {xs : List α}
    {ys : List β} (h : List.Forall₂ r xs ys) (hgood : ∀ x y, r x y → good y) :
    ∀ y ∈ ys, good y := by
  induction h with
  | nil => simp
  | cons hxy _ ih => exact List.forall_mem_cons.mpr ⟨hgood _ _ hxy, ih⟩

theorem Comparison.Compiled.isComparison {c : Comparison} {e : Expr} (h : c.Compiled e) :
    e.IsComparison := by
  obtain ⟨key, hkey, rfl⟩ := h
  have hname : Condition.filterName ≠ "" := by decide
  exact .call ⟨Key.wf_of_parse? hkey, List.forall_mem_singleton.mpr hname⟩

namespace Condition

theorem Compiled.isTest {cs : List Comparison} {e : Expr} (h : Compiled cs e) : e.IsTest := by
  cases h with
  | single h => exact .single h.isComparison
  | several h =>
    exact .any (forall_of_forall₂ h fun _ _ hc => hc.isComparison)

open Parse

/-- **What stands under `@if` is parsed into a predicate.** -/
theorem isPredicate_of_predicate {path : DocPath} {tree : Json} {e : Expr}
    (h : (predicate path tree).Yields e) : e.IsPredicate := by
  cases tree with
  | text s => exact .leaf (Template.isLeaf_of_read h.of_text)
  | bool b =>
    obtain rfl := h.of_pure
    exact .leaf (.const (.bool b))
  | object fields =>
    obtain ⟨es, hes, hshape⟩ := compiled_of_object h
    have htests := forall_of_forall₂ hes fun _ _ hc => hc.isTest
    rcases hshape with rfl | ⟨hlength, rfl⟩
    · exact .test (htests e List.mem_cons_self)
    · exact .all hlength htests
  | null | number n | array items => exact absurd h (not_yields_refuse _ _)

end Condition

/-! ## 4. Documents as they are parsed -/

namespace Parse

open Json Outline
open Stencil.Expr (fieldNames)

theorem fieldNames_merge_append (branches : List Expr) (others : List Entry) :
    fieldNames (branches.map .merge ++ others) = fieldNames others := by
  induction branches with
  | nil => rfl
  | cons e rest ih => exact ih

/-- The fields of an object are parsed into fields of the same names, and nothing else is. -/
theorem fieldNames_of_entries {path : DocPath} {fields : List (String × Json)} {es : List Entry}
    (h : (parseEntries path (entriesOf fields)).Yields es) :
    fieldNames es = (fields.map Prod.fst).filter fun name => !Directive.looksLike name := by
  induction fields generalizing es with
  | nil =>
    rw [entriesOf, parseEntries] at h
    obtain rfl := h.of_pure
    rfl
  | cons field rest ih =>
    obtain ⟨name, tree⟩ := field
    rw [entriesOf] at h
    by_cases hcontainer : name = Directive.container
    · have hlooks : Directive.looksLike name = true := by
        rw [hcontainer]
        decide
      rw [if_pos hcontainer, parseEntries] at h
      obtain ⟨⟨branches, others⟩, hboth, rfl⟩ := h.of_map
      rw [fieldNames_merge_append, ih hboth.of_both.2]
      simp [hlooks]
    · rw [if_neg hcontainer] at h
      by_cases hlooks : Directive.looksLike name = true
      · rw [if_pos hlooks] at h
        rw [ih h]
        simp [hlooks]
      · rw [if_neg hlooks, parseEntries] at h
        obtain ⟨⟨first, others⟩, hboth, rfl⟩ := h.of_map
        rw [fieldNames, ih hboth.of_both.2]
        simp [hlooks]

theorem isDistinct_of_field? {fields : List (String × Json)} {name : String} {tree : Json}
    (h : fieldsDistinct fields = true) (hfield : field? fields name = some tree) :
    tree.isDistinct = true :=
  fieldsDistinct_iff.mp h _ (mem_of_field? hfield)

mutual

/-- **A node is parsed into a well-formed expression.** -/
theorem wf_node (tree : Json) (path : DocPath) {e : Expr} (hdistinct : tree.isDistinct = true)
    (h : (Outline.parse path (ofJson tree)).Yields e) : e.Wf := by
  match tree, hdistinct, h with
  | .null, _, h =>
    rw [ofJson, Outline.parse] at h
    obtain rfl := h.of_nested.of_pure
    exact .leaf (.const .null)
  | .bool b, _, h =>
    rw [ofJson, Outline.parse] at h
    obtain rfl := h.of_nested.of_pure
    exact .leaf (.const (.bool b))
  | .number n, _, h =>
    rw [ofJson, Outline.parse] at h
    obtain rfl := h.of_nested.of_pure
    exact .leaf (.const (.number _))
  | .text s, _, h =>
    rw [ofJson, Outline.parse] at h
    exact .leaf (Template.isLeaf_of_read h.of_nested.of_text)
  | .array items, hdistinct, h =>
    rw [ofJson, Outline.parse] at h
    obtain ⟨es, hes, rfl⟩ := h.of_nested.of_map
    exact .list (wf_items items path 0 hdistinct hes)
  | .object fields, hdistinct, h =>
    rw [ofJson, Outline.parse] at h
    obtain ⟨⟨guard, body⟩, hblock, rfl⟩ := h.of_nested.of_map
    exact (wf_object fields path hdistinct hblock).guarded
termination_by (sizeOf tree, 0)

theorem wf_items (items : List Json) (path : DocPath) (i : Nat) {es : List Expr}
    (hdistinct : itemsDistinct items = true)
    (h : (parseItems path i (ofJsonItems items)).Yields es) : ∀ e ∈ es, e.Wf := by
  match items, hdistinct, h with
  | [], _, h =>
    rw [ofJsonItems, parseItems] at h
    obtain rfl := h.of_pure
    simp
  | item :: rest, hdistinct, h =>
    rw [itemsDistinct, Bool.and_eq_true] at hdistinct
    rw [ofJsonItems, parseItems] at h
    obtain ⟨⟨first, others⟩, hboth, rfl⟩ := h.of_map
    exact List.forall_mem_cons.mpr ⟨wf_node item _ hdistinct.1 hboth.of_both.1,
      wf_items rest path (i + 1) hdistinct.2 hboth.of_both.2⟩
termination_by (sizeOf items, 0)

/-- An object up to its guard is what a clause is made of. -/
theorem wf_object (fields : List (String × Json)) (path : DocPath) {guard : Option Expr}
    {e : Expr} (hdistinct : (Json.object fields).isDistinct = true)
    (h : (Block.parse path (ofJsonFields fields)).Yields (guard, e)) :
    Clause.Wf (.mk guard e) := by
  obtain ⟨hguard, hrepeated⟩ := Block.of_yields h
  refine .mk ?_ ?_
  · cases hguard with
    | none => simp
    | some hfield hpredicate =>
      exact fun p hp => Option.mem_some.mp hp ▸ Condition.isPredicate_of_predicate hpredicate
  · cases hrepeated with
    | once hnone hbody => exact wf_body fields path hdistinct hbody
    | each hsome hsource hbody =>
      have hless := sizeOf_field?_lt hsome
      have hfields := hdistinct
      rw [isDistinct, Bool.and_eq_true] at hfields
      exact .repetition (wf_node _ _ (isDistinct_of_field? hfields.2 hsome) hsource)
        (wf_body fields path hdistinct hbody)
termination_by (sizeOf fields, 2)

theorem wf_body (fields : List (String × Json)) (path : DocPath) {e : Expr}
    (hdistinct : (Json.object fields).isDistinct = true) (h : Block.Body path fields e) :
    e.Wf := by
  rw [isDistinct, Bool.and_eq_true, decide_eq_true_iff] at hdistinct
  cases h with
  | @clauses tree _ hsome hclauses =>
    have hless := sizeOf_field?_lt hsome
    have htree := isDistinct_of_field? hdistinct.2 hsome
    match tree, hless, htree, hclauses with
    | .array items, hless, htree, hclauses =>
      have hitems : sizeOf items < sizeOf fields := by
        simp only [array.sizeOf_spec] at hless
        omega
      rw [ofJson, parseClauses] at hclauses
      obtain ⟨cs, hcs, rfl⟩ := hclauses.of_map
      exact .conditional (wf_clauseItems items _ 0 htree hcs)
    | .null, _, _, h | .bool _, _, _, h | .number _, _, _, h | .text _, _, _, h
    | .object _, _, _, h =>
      rw [ofJson, parseClauses] at h
      exact absurd h (not_yields_refuse _ _)
  | @value tree _ _ hsome hvalue =>
    have hless := sizeOf_field?_lt hsome
    exact wf_node tree _ (isDistinct_of_field? hdistinct.2 hsome) hvalue
  | entries _ _ hentries =>
    -- containers add no names, so that the fields have names of the object
    have hnames := fieldNames_of_entries hentries
    refine .tree ?_ ?_ (wf_entries fields path hdistinct.2 hentries)
    · rw [hnames]
      exact hdistinct.1.filter _
    · intro name hname
      rw [hnames, List.mem_filter, Bool.not_eq_true'] at hname
      exact mt Directive.looksLike_iff.mpr (Bool.eq_false_iff.mp hname.2)
termination_by (sizeOf fields, 1)

theorem wf_clauseItems (items : List Json) (path : DocPath) (i : Nat) {cs : List Clause}
    (hdistinct : itemsDistinct items = true)
    (h : (parseClauseItems path i (ofJsonItems items)).Yields cs) : ∀ c ∈ cs, c.Wf := by
  match items, hdistinct, h with
  | [], _, h =>
    rw [ofJsonItems, parseClauseItems] at h
    obtain rfl := h.of_pure
    simp
  | .object fields :: rest, hdistinct, h =>
    rw [itemsDistinct, Bool.and_eq_true] at hdistinct
    rw [ofJsonItems, ofJson, parseClauseItems] at h
    obtain ⟨⟨⟨guard, result⟩, others⟩, hboth, rfl⟩ := h.of_map
    exact List.forall_mem_cons.mpr
      ⟨wf_object fields _ hdistinct.1 hboth.of_both.1.of_nested,
        wf_clauseItems rest path (i + 1) hdistinct.2 hboth.of_both.2⟩
  | .null :: rest, _, h | .bool _ :: rest, _, h | .number _ :: rest, _, h | .text _ :: rest, _, h
  | .array _ :: rest, _, h =>
    obtain ⟨⟨_, hrefuse⟩, -⟩ := Yields.of_andThen h
    exact absurd hrefuse (not_yields_refuse _ _)
termination_by (sizeOf items, 0)

theorem wf_entries (fields : List (String × Json)) (path : DocPath) {es : List Entry}
    (hdistinct : fieldsDistinct fields = true)
    (h : (parseEntries path (entriesOf fields)).Yields es) : ∀ entry ∈ es, entry.Wf := by
  match fields, hdistinct, h with
  | [], _, h =>
    rw [entriesOf, parseEntries] at h
    obtain rfl := h.of_pure
    simp
  | (name, tree) :: rest, hdistinct, h =>
    rw [fieldsDistinct, Bool.and_eq_true] at hdistinct
    rw [entriesOf] at h
    split_ifs at h
    · rw [parseEntries] at h
      obtain ⟨⟨branches, others⟩, hboth, rfl⟩ := h.of_map
      have hbranches := wf_branches tree _ hdistinct.1 hboth.of_both.1
      refine List.forall_mem_append.mpr ⟨List.forall_mem_map.mpr fun e he => .merge ?_, ?_⟩
      · exact hbranches e he
      · exact wf_entries rest path hdistinct.2 hboth.of_both.2
    · exact wf_entries rest path hdistinct.2 h
    · rw [parseEntries] at h
      obtain ⟨⟨first, others⟩, hboth, rfl⟩ := h.of_map
      exact List.forall_mem_cons.mpr
        ⟨.field name (wf_node tree _ hdistinct.1 hboth.of_both.1),
          wf_entries rest path hdistinct.2 hboth.of_both.2⟩
termination_by (sizeOf fields, 0)

theorem wf_branches (tree : Json) (path : DocPath) {es : List Expr}
    (hdistinct : tree.isDistinct = true) (h : (parseBranches path (ofJson tree)).Yields es) :
    ∀ e ∈ es, e.Wf := by
  match tree, hdistinct, h with
  | .object fields, hdistinct, h =>
    rw [ofJson, parseBranches] at h
    obtain ⟨branch, hbranch, rfl⟩ := h.of_map
    obtain ⟨⟨guard, body⟩, hblock, rfl⟩ := hbranch.of_nested.of_map
    exact List.forall_mem_singleton.mpr (wf_object fields path hdistinct hblock).guarded
  | .array items, hdistinct, h =>
    rw [ofJson, parseBranches] at h
    exact wf_branchItems items path 0 hdistinct h
  | .null, _, h | .bool _, _, h | .number _, _, h | .text _, _, h =>
    rw [ofJson, parseBranches] at h
    exact absurd h (not_yields_refuse _ _)
termination_by (sizeOf tree, 0)

theorem wf_branchItems (items : List Json) (path : DocPath) (i : Nat) {es : List Expr}
    (hdistinct : itemsDistinct items = true)
    (h : (parseBranchItems path i (ofJsonItems items)).Yields es) : ∀ e ∈ es, e.Wf := by
  match items, hdistinct, h with
  | [], _, h =>
    rw [ofJsonItems, parseBranchItems] at h
    obtain rfl := h.of_pure
    simp
  | .object fields :: rest, hdistinct, h =>
    rw [itemsDistinct, Bool.and_eq_true] at hdistinct
    rw [ofJsonItems, ofJson, parseBranchItems] at h
    obtain ⟨⟨first, others⟩, hboth, rfl⟩ := h.of_map
    obtain ⟨⟨guard, body⟩, hblock, rfl⟩ := hboth.of_both.1.of_nested.of_map
    exact List.forall_mem_cons.mpr ⟨(wf_object fields _ hdistinct.1 hblock).guarded,
      wf_branchItems rest path (i + 1) hdistinct.2 hboth.of_both.2⟩
  | .null :: rest, _, h | .bool _ :: rest, _, h | .number _ :: rest, _, h | .text _ :: rest, _, h
  | .array _ :: rest, _, h =>
    obtain ⟨⟨_, hrefuse⟩, -⟩ := Yields.of_andThen h
    exact absurd hrefuse (not_yields_refuse _ _)
termination_by (sizeOf items, 0)

end

end Parse

/-- **Documents are parsed into well-formed expressions**, whatever the limits are. No document that
    is read has a field twice. -/
theorem Parsed.wf_of_toExcept {options : ParseOptions} {document : Json} {e : Expr}
    (hdistinct : document.isDistinct = true)
    (h : (ofDocument options document).toExcept = .ok e) : e.Wf := by
  have hexpr := (toExcept_eq_ok_iff options document).mp h
  exact Parse.wf_node document .root hdistinct (yields_of_expr hexpr)

/-- An object with a guard, a field, a container of a clause, and texts with and without markers. -/
theorem Parsed.wf_of_toExcept_guarded_container :
    let document : Json := .object
      [("@if", .object [("StringEquals", .object
          [(" user : name ", .array [.text "a", .null]), ("user:city", .text "c")])]),
        ("@container", .array [.object [("@repeat", .text "$\x7buser:tags\x7d"),
          ("@value", .text "a $ \x7b$\x7b user : tag | or :\x7d")]]),
        ("other", .object [("@when", .array
          [.object [("@if", .bool true), ("@value", .text "plain")]])])]
    let equals (name literal : String) : Expr :=
      .call ⟨⟨"user", name⟩, [⟨"cond", ["StringEquals", literal]⟩]⟩
    let e : Expr := .conditional [.mk
      (some (.all [.any [equals "name" "a", equals "name" ""], equals "city" "c"]))
      (.tree [
        .merge (.repetition (.interpolated [.call ⟨⟨"user", "tags"⟩, []⟩])
          (.interpolated [.text "a $ \x7b", .call ⟨⟨"user", "tag"⟩, [⟨"or", [""]⟩]⟩])),
        .field "other" (.conditional [.mk (some (.const (.bool true))) (.text "plain")])])]
    document.isDistinct = true ∧ (ofDocument .default document).toExcept = .ok e ∧ e.Wf := by
  intro document equals e
  have hdistinct : document.isDistinct = true := by decide +kernel
  have hparse : (ofDocument .default document).toExcept = .ok e := by rfl
  exact ⟨hdistinct, hparse, wf_of_toExcept hdistinct hparse⟩

end Stencil
