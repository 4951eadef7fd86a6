import Stencil.Document.Parser
import Stencil.Proofs.Marker.Reading

/-!
# Parses that succeed

A parse is also run after others have failed, and its result says nothing about the report. This
file fixes

* what a parse can result in at all (`Parse.Yields`), whatever the options, the depth and the
  earlier findings are, with one inversion for each way in which parses are put together;
* the block of an object, read off its fields (`Outline.ofJsonFields_eq`): a directive has the value
  that was last written; and with it the parse of an object (`Block.parse_of_no_strangers`).
-/

namespace Stencil

namespace Parse

variable {α β : Type}

/-! ## 1. Results -/

/-- A result that a parse has for some options, at some depth, after some findings. -/
def Yields (p : Parse α) (a : α) : Prop :=
  ∃ options depth found after, p options depth found = (some a, after)

theorem Yields.of_pure {a b : α} (h : (pure a).Yields b) : a = b := by
  obtain ⟨options, depth, found, after, heq⟩ := h
  exact Option.some.inj (Prod.mk.inj heq).1

theorem not_yields_refuseEach (ds : List Diagnostic) (a : α) : ¬(refuseEach ds).Yields a := by
  rintro ⟨options, depth, found, after, heq⟩
  cases heq

theorem not_yields_refuse (d : Diagnostic) (a : α) : ¬(refuse d).Yields a :=
  not_yields_refuseEach [d] a

theorem Yields.of_map {f : α → β} {p : Parse α} {b : β} (h : (p.map f).Yields b) :
    ∃ a, p.Yields a ∧ b = f a := by
  obtain ⟨options, depth, found, after, heq⟩ := h
  obtain ⟨hresult, hafter⟩ := Prod.mk.inj heq
  obtain ⟨a, ha, rfl⟩ := Option.map_eq_some_iff.mp hresult
  exact ⟨a, ⟨options, depth, found, after, Prod.ext ha hafter⟩, rfl⟩

theorem Yields.of_both {p : Parse α} {q : Parse β} {a : α} {b : β} (h : (p.both q).Yields (a, b)) :
    p.Yields a ∧ q.Yields b := by
  obtain ⟨options, depth, found, after, heq⟩ := h
  obtain ⟨hresult, hafter⟩ := Prod.mk.inj heq
  obtain ⟨x, hx, hrest⟩ := Option.bind_eq_some_iff.mp hresult
  obtain ⟨y, hy, hpair⟩ := Option.map_eq_some_iff.mp hrest
  obtain ⟨rfl, rfl⟩ := Prod.mk.inj hpair
  exact ⟨⟨options, depth, found, _, Prod.ext hx rfl⟩,
    ⟨options, depth, _, after, Prod.ext hy hafter⟩⟩

theorem Yields.of_andThen {p : Parse α} {q : Parse β} {b : β} (h : (p.andThen q).Yields b) :
    (∃ a, p.Yields a) ∧ q.Yields b := by
  obtain ⟨⟨a, c⟩, hboth, rfl⟩ := h.of_map
  obtain ⟨hp, hq⟩ := hboth.of_both
  exact ⟨⟨a, hp⟩, hq⟩

theorem Yields.of_optional {p : Option (Parse α)} {r : Option α} (h : (optional p).Yields r) :
    (p = none ∧ r = none) ∨ ∃ q a, p = some q ∧ r = some a ∧ q.Yields a := by
  cases p with
  | none => exact .inl ⟨rfl, h.of_pure.symm⟩
  | some q =>
    obtain ⟨a, ha, rfl⟩ := h.of_map
    exact .inr ⟨q, a, rfl, rfl, ha⟩

/-- A node that was entered has the result of what was found there. -/
theorem Yields.of_nested {path : DocPath} {p : Parse α} {a : α} (h : (nested path p).Yields a) :
    p.Yields a := by
  obtain ⟨options, depth, found, after, heq⟩ := h
  unfold nested at heq
  split at heq
  · cases heq
  · split at heq
    · split at heq <;> cases heq
    · exact ⟨options, depth + 1, found, after, heq⟩

theorem Yields.of_text {s : String} {path : DocPath} {e : Expr} (h : (text s path).Yields e) :
    Template.read s path = .ok e := by
  obtain ⟨options, depth, found, after, heq⟩ := h
  exact read_of_text heq

/-- A body that is repeated, and the source of its repetition. -/
theorem Yields.of_repeated {body source : Parse Expr} {e : Expr}
    (h : (repeated body (some source)).Yields e) :
    ∃ s b, source.Yields s ∧ body.Yields b ∧ e = .repetition s b := by
  obtain ⟨⟨b, s⟩, hboth, rfl⟩ := Yields.of_map (p := body.both source) h
  obtain ⟨hbody, hsource⟩ := hboth.of_both
  exact ⟨s, b, hsource, hbody, rfl⟩

end Parse

/-! ## 2. The fields of an object -/

/-- What a field holds; the last one counts. -/
def Json.field? : List (String × Json) → String → Option Json
  | [], _ => none
  | (key, tree) :: rest, name => (field? rest name).or (if key = name then some tree else none)

theorem Json.mem_of_field? {fields : List (String × Json)} {name : String} {tree : Json}
    (h : field? fields name = some tree) : (name, tree) ∈ fields := by
  induction fields with
  | nil => cases h
  | cons field rest ih =>
    obtain ⟨key, first⟩ := field
    rw [field?, Option.or_eq_some_iff] at h
    rcases h with hrest | ⟨-, hfirst⟩
    · exact List.mem_cons_of_mem _ (ih hrest)
    · obtain ⟨rfl, hsame⟩ := Option.ite_none_right_eq_some.mp hfirst
      obtain rfl := Option.some.inj hsame
      exact List.mem_cons_self

namespace Directive

/-- The names that are directives. -/
def known : List String := [guard, clauses, value, source, container]

/-- The names of the fields that look like directives and are none. -/
def strangers : List (String × Json) → List String
  | [] => []
  | (name, _) :: rest =>
    if looksLike name = true ∧ name ∉ known then name :: strangers rest else strangers rest

theorem looksLike_iff {name : String} : looksLike name = true ↔ name.toList.head? = some '@' := by
  unfold looksLike
  split
  · next rest hrest => simp [hrest]
  · next hother =>
    refine iff_of_false Bool.false_ne_true fun hhead => ?_
    obtain ⟨rest, hrest⟩ := List.head?_eq_some_iff.mp hhead
    exact hother rest hrest

/-- What looks like a directive and is none is a field. -/
theorem exists_of_mem_strangers {fields : List (String × Json)} {name : String}
    (h : name ∈ strangers fields) : ∃ tree, (name, tree) ∈ fields := by
  induction fields with
  | nil => cases h
  | cons field rest ih =>
    have hrest (h : name ∈ strangers rest) : ∃ tree, (name, tree) ∈ field :: rest :=
      (ih h).imp fun _ => List.mem_cons_of_mem field
    rw [strangers] at h
    split at h
    · rcases List.mem_cons.mp h with rfl | hmem
      · exact ⟨field.2, List.mem_cons_self⟩
      · exact hrest hmem
    · exact hrest h

end Directive

namespace Outline

open Directive

/-- The entries of an object: its ordinary fields and its containers. -/
def entriesOf : List (String × Json) → List BlockEntry
  | [] => []
  | (name, tree) :: rest =>
    if name = container then .container (ofJson tree) :: entriesOf rest
    else if looksLike name then entriesOf rest
    else .field name (ofJson tree) :: entriesOf rest

theorem looksLike_of_mem_known {name : String} (h : name ∈ known) : looksLike name = true := by
  simp only [known, List.mem_cons, List.not_mem_nil, or_false] at h
  rcases h with rfl | rfl | rfl | rfl | rfl <;> decide

/-- No directive is another one. -/
theorem known_distinct : known.Pairwise fun a b => a ≠ b ∧ b ≠ a := by
  decide

theorem field?_cons_self (name : String) (tree : Json) (rest : List (String × Json)) :
    Json.field? ((name, tree) :: rest) name = some ((Json.field? rest name).getD tree) := by
  rw [Json.field?, if_pos rfl]
  cases Json.field? rest name <;> rfl

theorem field?_cons_of_ne {name other : String} (h : name ≠ other) (tree : Json)
    (rest : List (String × Json)) :
    Json.field? ((name, tree) :: rest) other = Json.field? rest other := by
  rw [Json.field?, if_neg h, Option.or_none]

/-- **The block of an object**, read off its fields. -/
theorem ofJsonFields_eq (fields : List (String × Json)) :
    ofJsonFields fields = .mk (strangers fields) (Json.field? fields guard)
      ((Json.field? fields clauses).map ofJson) ((Json.field? fields value).map ofJson)
      ((Json.field? fields source).map ofJson) (entriesOf fields) := by
  induction fields with
  | nil => rfl
  | cons field rest ih =>
    obtain ⟨name, tree⟩ := field
    rw [ofJsonFields, ih]
    have hmap : ∀ name, ((Json.field? rest name).map ofJson).getD (ofJson tree) =
        ofJson ((Json.field? rest name).getD tree) := fun _ => Option.getD_map ..
    by_cases hknown : name ∈ known
    · have hlooks := looksLike_of_mem_known hknown
      have hstrangers : strangers ((name, tree) :: rest) = strangers rest :=
        if_neg fun h => h.2 hknown
      rw [hstrangers]
      have hne := known_distinct
      simp only [known, List.pairwise_cons, List.forall_mem_cons] at hne
      simp only [known, List.mem_cons, List.not_mem_nil, or_false] at hknown
      rcases hknown with rfl | rfl | rfl | rfl | rfl <;>
      simp [Block.cons, hlooks, field?_cons_self, hmap, field?_cons_of_ne, entriesOf, hne]
    · have hother : ∀ directive ∈ known, name ≠ directive :=
        fun _ hmem heq => hknown (heq ▸ hmem)
      simp only [known, List.forall_mem_cons] at hother
      obtain ⟨hguard, hclauses, hvalue, hsource, hcontainer, -⟩ := hother
      by_cases hlooks : looksLike name = true
      · have hstrangers : strangers ((name, tree) :: rest) = name :: strangers rest :=
          if_pos ⟨hlooks, hknown⟩
        rw [hstrangers]
        simp [Block.cons, hlooks, field?_cons_of_ne, entriesOf, hguard, hclauses, hvalue, hsource,
          hcontainer]
      · have hstrangers : strangers ((name, tree) :: rest) = strangers rest :=
          if_neg fun h => hlooks h.1
        rw [hstrangers]
        simp [Block.cons, hlooks, field?_cons_of_ne, entriesOf, hguard, hclauses, hvalue, hsource,
          hcontainer]

end Outline

/-! ## 3. Blocks -/

namespace Block

open Parse Outline

variable (path : DocPath) (fields : List (String × Json))

/-- The parse of the body of an object. -/
def parseBody : Parse Expr :=
  match Json.field? fields Directive.clauses with
  | some tree =>
    andThen (complain (clashes path (Json.field? fields Directive.value).isSome
      !(entriesOf fields).isEmpty)) (parseClauses (path.field Directive.clauses) (ofJson tree))
  | none =>
    match Json.field? fields Directive.value with
    | some tree => Outline.parse (path.field Directive.value) (ofJson tree)
    | none => (parseEntries path (entriesOf fields)).map .tree

variable {path fields}

theorem parse_of_strangers {name : String} {rest : List String}
    (h : Directive.strangers fields = name :: rest) :
    Block.parse path (ofJsonFields fields) = refuseEach (strangers path (name :: rest)) := by
  rw [ofJsonFields_eq, h, Block.parse.eq_def]

/-- **The parse of an object**, read off its fields: the guard, the body and the source of its
    repetition. -/
theorem parse_of_no_strangers (h : Directive.strangers fields = []) :
    Block.parse path (ofJsonFields fields) =
      (Parse.optional ((Json.field? fields Directive.guard).map
        (Condition.predicate (path.field Directive.guard)))).both
      (repeated (parseBody path fields) ((Json.field? fields Directive.source).map fun tree =>
        Outline.parse (path.field Directive.source) (ofJson tree))) := by
  rw [ofJsonFields_eq, h, Block.parse.eq_def]
  unfold parseBody
  cases Json.field? fields Directive.source <;> cases Json.field? fields Directive.clauses <;>
  cases Json.field? fields Directive.value <;> rfl

variable (path fields)

/-- The guards that an object can be parsed into. -/
inductive Guard : Option Expr → Prop where
  | none (h : Json.field? fields Directive.guard = none) : Guard none
  | some {tree : Json} {e : Expr} (h : Json.field? fields Directive.guard = some tree)
      (hpredicate : (Condition.predicate (path.field Directive.guard) tree).Yields e) :
      Guard (some e)

/-- The bodies that an object can be parsed into. -/
inductive Body : Expr → Prop where
  | clauses {tree : Json} {e : Expr} (h : Json.field? fields Directive.clauses = some tree)
      (hclauses : (parseClauses (path.field Directive.clauses) (ofJson tree)).Yields e) : Body e
  | value {tree : Json} {e : Expr} (hnone : Json.field? fields Directive.clauses = none)
      (h : Json.field? fields Directive.value = some tree)
      (hvalue : (Outline.parse (path.field Directive.value) (ofJson tree)).Yields e) : Body e
  | entries {es : List Entry} (hnone : Json.field? fields Directive.clauses = none)
      (hnone' : Json.field? fields Directive.value = none)
      (hentries : (parseEntries path (entriesOf fields)).Yields es) : Body (.tree es)

/-- The bodies with their repetition. -/
inductive Repeated : Expr → Prop where
  | once {e : Expr} (h : Json.field? fields Directive.source = none) (hbody : Body path fields e) :
      Repeated e
  | each {tree : Json} {s e : Expr} (h : Json.field? fields Directive.source = some tree)
      (hsource : (Outline.parse (path.field Directive.source) (ofJson tree)).Yields s)
      (hbody : Body path fields e) : Repeated (.repetition s e)

variable {path fields}

theorem Body.of_yields {e : Expr} (h : (parseBody path fields).Yields e) : Body path fields e := by
  unfold parseBody at h
  cases hclauses : Json.field? fields Directive.clauses with
  | some tree =>
    rw [hclauses] at h
    exact .clauses hclauses (Yields.of_andThen h).2
  | none =>
    rw [hclauses] at h
    cases hvalue : Json.field? fields Directive.value with
    | some tree =>
      rw [hvalue] at h
      exact .value hclauses hvalue h
    | none =>
      rw [hvalue] at h
      obtain ⟨es, hes, rfl⟩ := Yields.of_map h
      exact .entries hclauses hvalue hes

/-- **What an object is parsed into**: a guard, and a body with its repetition. -/
theorem of_yields {guard : Option Expr} {e : Expr}
    (h : (Block.parse path (ofJsonFields fields)).Yields (guard, e)) :
    Guard path fields guard ∧ Repeated path fields e := by
  cases hstrangers : Directive.strangers fields with
  | cons name rest =>
    rw [parse_of_strangers hstrangers] at h
    exact absurd h (not_yields_refuseEach _ _)
  | nil =>
    rw [parse_of_no_strangers hstrangers] at h
    obtain ⟨hguard, hrepeated⟩ := Yields.of_both h
    constructor
    · rcases hguard.of_optional with ⟨hnone, rfl⟩ | ⟨p, e, hsome, rfl, hp⟩
      · exact .none (Option.map_eq_none_iff.mp hnone)
      · obtain ⟨tree, htree, rfl⟩ := Option.map_eq_some_iff.mp hsome
        exact .some htree hp
    · cases hsource : Json.field? fields Directive.source with
      | none =>
        rw [hsource] at hrepeated
        exact .once hsource (Body.of_yields hrepeated)
      | some tree =>
        rw [hsource] at hrepeated
        obtain ⟨s, b, hs, hbody, rfl⟩ := Yields.of_repeated hrepeated
        exact .each hsource hs (Body.of_yields hbody)

end Block

theorem Parsed.yields_of_expr {options : ParseOptions} {document : Json} {e : Expr}
    (h : (ofDocument options document).expr = some e) :
    (Outline.parse .root (Outline.ofJson document)).Yields e :=
  ⟨options, 0, ⟨Report.withLimit options.maxErrors, false⟩, _,
    Prod.ext (Option.ite_none_left_eq_some.mp h).2 rfl⟩

end Stencil
