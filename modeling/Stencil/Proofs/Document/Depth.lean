import Stencil.Proofs.Document.Reporting

/-!
# How deep a document may be

The limit of depth decides whether a document is parsed, and nothing else. This file fixes

* the levels that a document needs (`Json.levels`): one for each node, on the longest way through
  the parts that are parsed as nodes of their own (`Json.parts`);
* the height of an expression (`Expr.height`);
* what a parse makes of the limit (`Parse.Needs`): with the levels that it needs it has its result
  and finds nothing, with fewer it reports the excess once and nothing else;
* that every parse that has a result at all needs exactly the levels of its document, and that the
  height of its result is bounded by them (`Parse.Measured`), by the ways in which parses are put
  together.
-/

namespace Stencil

/-! ## 1. The levels of a document -/

namespace Json

/-- The ordinary fields of an object, and the branches of its containers. -/
def entryParts : List (String × Json) → List Json
  | [] => []
  | (name, tree) :: rest =>
    if name = Directive.container then tree.branches ++ entryParts rest
    else if Directive.looksLike name then entryParts rest
    else tree :: entryParts rest

/-- The parts of the body of an object: the clauses of `@when`, else what `@value` holds, else the
    entries. -/
def bodyParts (fields : List (String × Json)) : List Json :=
  match field? fields Directive.clauses with
  | some tree => tree.clauses
  | none =>
    match field? fields Directive.value with
    | some tree => [tree]
    | none => entryParts fields

/-- The parts of an object: the source of its repetition, and those of its body. -/
def objectParts (fields : List (String × Json)) : List Json :=
  (field? fields Directive.source).toList ++ bodyParts fields

/-- The parts of a document that are parsed as nodes of their own, one level below it. A condition
    has no such parts, and the sequence around clauses or branches is no level. -/
def parts : Json → List Json
  | .null => []
  | .bool _ => []
  | .number _ => []
  | .text _ => []
  | .array items => items
  | .object fields => objectParts fields

theorem sizeOf_le_of_mem_branches {tree part : Json} (h : part ∈ tree.branches) :
    sizeOf part ≤ sizeOf tree := by
  cases tree with
  | array items =>
    have hmem : part ∈ items := h
    have hless := List.sizeOf_lt_of_mem hmem
    simp only [array.sizeOf_spec]
    omega
  | _ =>
    obtain rfl := List.mem_singleton.mp h
    exact Nat.le_refl _

theorem sizeOf_lt_of_mem_clauses {tree part : Json} (h : part ∈ tree.clauses) :
    sizeOf part < sizeOf tree :=
  Nat.lt_of_lt_of_le (List.sizeOf_lt_of_mem h) (sizeOf_clauses_le tree)

theorem sizeOf_lt_of_mem_entryParts {fields : List (String × Json)} {part : Json}
    (h : part ∈ entryParts fields) : sizeOf part < sizeOf fields := by
  induction fields with
  | nil => cases h
  | cons field rest ih =>
    obtain ⟨name, tree⟩ := field
    rw [List.cons.sizeOf_spec, Prod.mk.sizeOf_spec]
    rw [entryParts] at h
    split_ifs at h
    · rcases List.mem_append.mp h with hbranch | hrest
      · have hle := sizeOf_le_of_mem_branches hbranch
        omega
      · have hless := ih hrest
        omega
    · have hless := ih h
      omega
    · rcases List.mem_cons.mp h with rfl | hrest
      · omega
      · have hless := ih hrest
        omega

theorem sizeOf_lt_of_mem_bodyParts {fields : List (String × Json)} {part : Json}
    (h : part ∈ bodyParts fields) : sizeOf part < sizeOf fields := by
  unfold bodyParts at h
  split at h
  · next tree hclauses =>
    exact Nat.lt_trans (sizeOf_lt_of_mem_clauses h) (sizeOf_field?_lt hclauses)
  · split at h
    · next tree hvalue =>
      obtain rfl := List.mem_singleton.mp h
      exact sizeOf_field?_lt hvalue
    · exact sizeOf_lt_of_mem_entryParts h

theorem sizeOf_lt_of_mem_parts {tree part : Json} (h : part ∈ tree.parts) :
    sizeOf part < sizeOf tree := by
  cases tree with
  | array items =>
    have hmem : part ∈ items := h
    have hless := List.sizeOf_lt_of_mem hmem
    simp only [array.sizeOf_spec]
    omega
  | object fields =>
    have hless : sizeOf part < sizeOf fields := by
      rcases List.mem_append.mp h with hsource | hbody
      · exact sizeOf_field?_lt (Option.mem_toList.mp hsource)
      · exact sizeOf_lt_of_mem_bodyParts hbody
    simp only [object.sizeOf_spec]
    omega
  | _ => cases h

/-- The levels that a document needs: one, and those of the deepest of its parts. -/
def levels (tree : Json) : Nat :=
  1 + (tree.parts.attach.map fun part => levels part.1).foldr max 0
termination_by sizeOf tree
decreasing_by exact sizeOf_lt_of_mem_parts part.2

/-- The levels that the deepest of some documents needs. -/
def levelsOf (trees : List Json) : Nat :=
  (trees.map levels).foldr max 0

theorem levels_eq (tree : Json) : tree.levels = 1 + levelsOf tree.parts := by
  rw [levels, levelsOf, List.attach_map_val]

@[simp] theorem levelsOf_nil : levelsOf [] = 0 := rfl

@[simp] theorem levelsOf_cons (tree : Json) (rest : List Json) :
    levelsOf (tree :: rest) = max tree.levels (levelsOf rest) := rfl

theorem levelsOf_singleton (tree : Json) : levelsOf [tree] = tree.levels :=
  Nat.max_zero _

@[simp] theorem levelsOf_append (first others : List Json) :
    levelsOf (first ++ others) = max (levelsOf first) (levelsOf others) := by
  induction first with
  | nil => simp
  | cons tree rest ih => simp [ih, Nat.max_assoc]

end Json

/-! ## 2. The height of an expression -/

namespace Expr

mutual

/-- The height of an expression: one, and that of the highest expression in it. -/
def height : Expr → Nat
  | .const _ => 1
  | .interpolated _ => 1
  | .call _ => 1
  | .tree entries => 1 + entriesHeight entries
  | .list items => 1 + itemsHeight items
  | .repetition source body => 1 + max (height source) (height body)
  | .conditional clauses => 1 + clausesHeight clauses
  | .all predicates => 1 + itemsHeight predicates
  | .any predicates => 1 + itemsHeight predicates

/-- The height of the highest of some expressions. -/
def itemsHeight : List Expr → Nat
  | [] => 0
  | e :: rest => max (height e) (itemsHeight rest)

/-- The height of the highest entry of an object. -/
def entriesHeight : List Entry → Nat
  | [] => 0
  | .field _ e :: rest => max (height e) (entriesHeight rest)
  | .merge e :: rest => max (height e) (entriesHeight rest)

/-- The height of the highest predicate or result of some clauses. -/
def clausesHeight : List Clause → Nat
  | [] => 0
  | .mk none result :: rest => max (height result) (clausesHeight rest)
  | .mk (some predicate) result :: rest =>
    max (max (height predicate) (height result)) (clausesHeight rest)

end

theorem itemsHeight_append (first others : List Expr) :
    itemsHeight (first ++ others) = max (itemsHeight first) (itemsHeight others) := by
  induction first with
  | nil => simp [itemsHeight]
  | cons e rest ih => simp [itemsHeight, ih, Nat.max_assoc]

theorem entriesHeight_merge_append (branches : List Expr) (others : List Entry) :
    entriesHeight (branches.map .merge ++ others) =
      max (itemsHeight branches) (entriesHeight others) := by
  induction branches with
  | nil => simp [itemsHeight]
  | cons e rest ih => simp [itemsHeight, entriesHeight, ih, Nat.max_assoc]

end Expr

/-! ## 3. What a parse makes of the limit -/

/-- The findings behind which excess of depth is not reported. -/
def Findings.Quiet (found : Findings) : Prop :=
  found.report.isFull = true ∨ found.tooDeep = true

/-- The findings after excess of depth was reported at a path. -/
def Findings.exceed (found : Findings) (limit : Nat) (path : DocPath) : Findings :=
  ⟨found.report.addError ((Fault.tooDeep limit).on path), true⟩

namespace Parse

variable {α β : Type}

/-- A parse that needs so many levels below it for its result:

    * with these levels it has the result and finds nothing;
    * with fewer it has no result, and it reports the excess at one place;
    * where excess is not reported any more, it finds nothing. -/
structure Needs (p : Parse α) (levels : Nat) (a : α) : Prop where
  within : ∀ options depth, depth + levels ≤ options.maxDepth → p.Accepts options depth a
  beyond : ∀ options depth found, depth ≤ options.maxDepth → options.maxDepth < depth + levels →
    ¬found.Quiet → ∃ path, p options depth found = (none, found.exceed options.maxDepth path)
  quiet : ∀ options depth found, found.Quiet → (p options depth found).2 = found

variable {p : Parse α} {q : Parse β} {a : α} {b : β} {n m : Nat}

theorem isFull_of_not_quiet {found : Findings} (h : ¬found.Quiet) :
    found.report.isFull = false :=
  Bool.eq_false_iff.mpr fun hfull => h (.inl hfull)

theorem needs_pure (a : α) : (pure a).Needs 0 a where
  within _ _ _ := accepts_pure _ _ a
  beyond _ _ _ hdepth hlimit _ := absurd hdepth (Nat.not_le_of_lt hlimit)
  quiet _ _ _ _ := rfl

theorem Needs.map (h : p.Needs n a) (f : α → β) : (p.map f).Needs n (f a) where
  within options depth hlimit := (h.within options depth hlimit).map f
  beyond options depth found hdepth hlimit hquiet := by
    obtain ⟨path, hrun⟩ := h.beyond options depth found hdepth hlimit hquiet
    refine ⟨path, ?_⟩
    rw [Parse.map, hrun]
    rfl
  quiet options depth found hquiet := h.quiet options depth found hquiet

/-- A parse with one behind it: the second is run only where nothing was found, or where nothing is
    reported any more. -/
theorem Needs.both (hp : p.Needs n a) (hq : q.Needs m b) : (p.both q).Needs (max n m) (a, b) where
  within options depth hlimit :=
    (hp.within options depth (by omega)).both (hq.within options depth (by omega))
  beyond options depth found hdepth hlimit hquiet := by
    rw [Parse.both]
    by_cases hfirst : options.maxDepth < depth + n
    · obtain ⟨path, hrun⟩ := hp.beyond options depth found hdepth hfirst hquiet
      refine ⟨path, ?_⟩
      rw [hrun]
      exact Prod.ext rfl (hq.quiet options depth _ (.inr rfl))
    · have hroom := isFull_of_not_quiet hquiet
      have hsecond : options.maxDepth < depth + m := by omega
      obtain ⟨path, hrun⟩ := hq.beyond options depth found hdepth hsecond hquiet
      refine ⟨path, ?_⟩
      rw [hp.within options depth (by omega) found hroom]
      show (_, _) = _
      rw [hrun]
      rfl
  quiet options depth found hquiet := by
    have hfirst := hp.quiet options depth found hquiet
    show (q options depth (p options depth found).2).2 = found
    rw [hfirst]
    exact hq.quiet options depth found hquiet

theorem Needs.nested (path : DocPath) (h : p.Needs n a) : (nested path p).Needs (1 + n) a where
  within options depth hlimit :=
    (h.within options (depth + 1) (by omega)).nested path (by omega)
  beyond options depth found _ hlimit hquiet := by
    have hdeep : ¬found.tooDeep = true := fun hdeep => hquiet (.inr hdeep)
    rw [Parse.nested, if_neg (fun hfull => hquiet (.inl hfull))]
    by_cases hentered : options.maxDepth < depth + 1
    · rw [if_pos hentered, if_neg hdeep]
      exact ⟨path, rfl⟩
    · rw [if_neg hentered]
      exact h.beyond options (depth + 1) found (by omega) (by omega) hquiet
  quiet options depth found hquiet := by
    unfold Parse.nested
    split
    · rfl
    · next hroom =>
      split
      · rw [if_pos (hquiet.resolve_left hroom)]
      · exact h.quiet options (depth + 1) found hquiet

/-- What is needed for a result determines it. -/
theorem Needs.unique {a' : α} (h : p.Needs n a) (h' : p.Needs n a') : a = a' := by
  have hstart : (Report.withLimit 1).isFull = false := rfl
  have hrun := h.within ⟨1, n⟩ 0 (by simp) ⟨Report.withLimit 1, false⟩ hstart
  rw [h'.within ⟨1, n⟩ 0 (by simp) ⟨Report.withLimit 1, false⟩ hstart] at hrun
  exact (Option.some.inj (Prod.mk.inj hrun).1).symm

/-! ## 4. Measured parses -/

/-- A parse whose every possible result needs so many levels, and is good. -/
def Measured (p : Parse α) (levels : Nat) (good : α → Prop) : Prop :=
  ∀ a, p.Yields a → p.Needs levels a ∧ good a

variable {good : α → Prop} {good' : β → Prop}

theorem measured_pure (h : good a) : (pure a).Measured 0 good := by
  intro b hb
  obtain rfl := hb.of_pure
  exact ⟨needs_pure a, h⟩

theorem measured_refuseEach (ds : List Diagnostic) (n : Nat) :
    (refuseEach ds).Measured n good :=
  fun a ha => absurd ha (not_yields_refuseEach ds a)

theorem measured_refuse (d : Diagnostic) (n : Nat) : (refuse d).Measured n good :=
  measured_refuseEach [d] n

theorem Measured.map (h : p.Measured n good) {f : α → β} (hgood : ∀ a, good a → good' (f a)) :
    (p.map f).Measured n good' := by
  intro b hb
  obtain ⟨a, ha, rfl⟩ := hb.of_map
  exact ⟨(h a ha).1.map f, hgood a (h a ha).2⟩

theorem Measured.mono {weaker : α → Prop} (h : p.Measured n good)
    (himp : ∀ a, good a → weaker a) : p.Measured n weaker :=
  fun a ha => ⟨(h a ha).1, himp a (h a ha).2⟩

theorem Measured.both (hp : p.Measured n good) (hq : q.Measured m good') :
    (p.both q).Measured (max n m) fun c => good c.1 ∧ good' c.2 := by
  intro ⟨a, b⟩ h
  obtain ⟨ha, hb⟩ := h.of_both
  exact ⟨(hp a ha).1.both (hq b hb).1, (hp a ha).2, (hq b hb).2⟩

theorem Measured.andThen (hp : p.Measured 0 good) (hq : q.Measured m good') :
    (p.andThen q).Measured m good' := by
  have hboth := (hp.both hq).map (f := Prod.snd) fun _ h => h.2
  rwa [Nat.zero_max] at hboth

theorem Measured.nested (path : DocPath) (h : p.Measured n good) :
    (nested path p).Measured (1 + n) good :=
  fun a ha => ⟨(h a ha.of_nested).1.nested path, (h a ha.of_nested).2⟩

theorem measured_optional {p : Option (Parse α)} (h : ∀ q, p = some q → q.Measured 0 good) :
    (optional p).Measured 0 fun r => ∀ a ∈ r, good a := by
  cases p with
  | none => exact measured_pure (by simp)
  | some q => exact (h q rfl).map (f := some) fun a ha => by simpa using ha

theorem measured_complain (ds : List Diagnostic) : (complain ds).Measured 0 fun _ => True := by
  cases ds with
  | nil => exact measured_pure trivial
  | cons d rest => exact measured_refuseEach _ 0

theorem measured_text (s : String) (path : DocPath) :
    (text s path).Measured 0 fun e => e.height ≤ 1 := by
  intro e he
  have hread := he.of_text
  rw [text_eq_pure hread]
  refine ⟨needs_pure e, ?_⟩
  cases hopening : Template.hasOpening s.toList with
  | false =>
    rw [Template.read_of_not_hasOpening _ hopening] at hread
    obtain rfl := Except.ok.inj hread
    exact Nat.le_refl 1
  | true =>
    obtain ⟨parts, pieces, -, -, -, rfl⟩ := (Template.read_eq_ok_iff hopening).mp hread
    exact Nat.le_refl 1

/-- A parse, and a second one for its result that needs no level of its own. -/
theorem Measured.bind {f : α → Parse β} (hp : p.Measured n good)
    (hf : ∀ a, good a → (f a).Measured 0 good') : (p.bind f).Measured n good' := by
  intro b hb
  obtain ⟨a, ha, hfa⟩ := hb.of_bind
  obtain ⟨hneeds, hgood⟩ := hp a ha
  obtain ⟨hneeds', hgood'⟩ := hf a hgood b hfa
  refine ⟨⟨fun options depth hlimit found hroom => ?_,
    fun options depth found hdepth hlimit hquiet => ?_,
    fun options depth found hquiet => ?_⟩, hgood'⟩
  · rw [Parse.bind, hneeds.within options depth hlimit found hroom]
    exact hneeds'.within options depth (by omega) found hroom
  · obtain ⟨path, hrun⟩ := hneeds.beyond options depth found hdepth hlimit hquiet
    refine ⟨path, ?_⟩
    rw [Parse.bind, hrun]
    rfl
  · have hsilent := hneeds.quiet options depth found hquiet
    unfold Parse.bind
    rcases hrun : p options depth found with ⟨_ | a', after⟩
    · rw [hrun] at hsilent
      exact hsilent
    · rw [hrun] at hsilent
      obtain rfl : after = found := hsilent
      obtain rfl := hneeds.unique (hp a' ⟨options, depth, after, after, hrun⟩).1
      exact hneeds'.quiet options depth after hquiet

end Parse

/-! ## 5. Conditions -/

namespace Parse

open Condition

theorem measured_literal (path : DocPath) (tree : Json) :
    (literal path tree).Measured 0 fun _ => True := by
  cases tree with
  | array items => exact measured_refuse _ 0
  | object fields => exact measured_refuse _ 0
  | _ => exact measured_pure trivial

theorem measured_alternatives (key : Key) (operator : String) (path : DocPath) (i : Nat)
    (trees : List Json) :
    (alternatives key operator path i trees).Measured 0 fun es => Expr.itemsHeight es ≤ 1 := by
  induction trees generalizing i with
  | nil => exact measured_pure (Nat.zero_le 1)
  | cons tree rest ih =>
    exact ((measured_literal (path.index i) tree).both (ih (i + 1))).map fun _ h =>
      Nat.max_le.mpr ⟨Nat.le_refl 1, h.2⟩

theorem measured_comparison (operator : String) (path : DocPath) (name : String) (tree : Json) :
    (entry operator path name tree).Measured 0 fun e => e.height ≤ 2 := by
  unfold entry
  cases Key.parse? name with
  | none => exact measured_refuse _ 0
  | some key =>
    cases tree with
    | array options =>
      refine (measured_alternatives key operator _ 0 options).map fun es h => ?_
      rw [Expr.height]
      omega
    | _ => exact (measured_literal _ _).map fun _ _ => Nat.le_succ 1

theorem measured_comparisons (operator : String) (path : DocPath) (fields : List (String × Json)) :
    (entries operator path fields).Measured 0 fun es => Expr.itemsHeight es ≤ 2 := by
  induction fields with
  | nil => exact measured_pure (Nat.zero_le 2)
  | cons field rest ih =>
    exact ((measured_comparison operator path field.1 field.2).both ih).map fun _ h =>
      Nat.max_le.mpr h

theorem measured_operators (path : DocPath) (fields : List (String × Json)) :
    (operators path fields).Measured 0 fun es => Expr.itemsHeight es ≤ 2 := by
  induction fields with
  | nil => exact measured_pure (Nat.zero_le 2)
  | cons field rest ih =>
    obtain ⟨operator, tree⟩ := field
    cases tree with
    | object conditions =>
      refine ((measured_comparisons operator (path.field operator) conditions).both ih).map
        fun found h => ?_
      rw [Expr.itemsHeight_append]
      exact Nat.max_le.mpr h
    | _ =>
      have hrefuse : (refuse ((Fault.conditionNotObject operator).on (path.field operator)) :
          Parse Unit).Measured 0 fun _ => True := measured_refuse _ 0
      exact hrefuse.andThen ih

theorem measured_conjunction (path : DocPath) {found : List Expr}
    (h : Expr.itemsHeight found ≤ 2) :
    (conjunction path found).Measured 0 fun e => e.height ≤ 3 := by
  match found, h with
  | [], _ => exact measured_refuse _ 0
  | [only], h =>
    rw [Expr.itemsHeight, Nat.max_le] at h
    exact measured_pure (Nat.le_succ_of_le h.1)
  | first :: second :: rest, h =>
    have hheight : (Expr.all (first :: second :: rest)).height ≤ 3 := by
      rw [Expr.height]
      omega
    exact measured_pure hheight

/-- **A predicate needs no level**, and it is three expressions high at most. -/
theorem measured_predicate (path : DocPath) (tree : Json) :
    (predicate path tree).Measured 0 fun e => e.height ≤ 3 := by
  cases tree with
  | text s =>
    intro e he
    obtain ⟨hneeds, hheight⟩ := measured_text s path e he
    exact ⟨hneeds, Nat.le_trans hheight (by decide)⟩
  | bool b => exact measured_pure (show 1 ≤ 3 by decide)
  | object fields =>
    rw [predicate, object_eq_bind]
    exact (measured_operators path fields).bind fun _ h => measured_conjunction path h
  | _ => exact measured_refuse _ 0

end Parse

/-! ## 6. Nodes -/

namespace Parse

open Outline Json
open Stencil.Expr (height itemsHeight entriesHeight clausesHeight)

/-- The height of an expression at a node with these levels. -/
def NodeHeight (levels : Nat) (e : Expr) : Prop :=
  e.height ≤ 3 * levels + 1

/-- The heights of a guard and of the expression that it guards, in an object whose parts need these
    levels: a guard is on top of the body and its repetition. -/
def BlockHeight (levels : Nat) (found : Option Expr × Expr) : Prop :=
  (∀ predicate ∈ found.1, predicate.height ≤ 3) ∧ found.2.height ≤ 3 * levels + 3

theorem BlockHeight.guarded {n : Nat} {found : Option Expr × Expr} (h : BlockHeight n found) :
    NodeHeight (1 + n) (Expr.guarded found) := by
  obtain ⟨_ | predicate, body⟩ := found
  · have hbody : body.height ≤ 3 * n + 3 := h.2
    simp only [NodeHeight, Expr.guarded]
    omega
  · have hpredicate := h.1 predicate rfl
    have hbody : body.height ≤ 3 * n + 3 := h.2
    simp only [NodeHeight, Expr.guarded, height, clausesHeight]
    omega

theorem BlockHeight.clause {n : Nat} {found : Option Expr × Expr} {rest : List Clause}
    {bound : Nat} (h : BlockHeight n found) (hn : 3 * n + 3 ≤ bound)
    (hrest : clausesHeight rest ≤ bound) :
    clausesHeight (.mk found.1 found.2 :: rest) ≤ bound := by
  obtain ⟨_ | predicate, body⟩ := found
  · have hbody : body.height ≤ 3 * n + 3 := h.2
    simp only [clausesHeight]
    omega
  · have hpredicate := h.1 predicate rfl
    have hbody : body.height ≤ 3 * n + 3 := h.2
    simp only [clausesHeight]
    omega

theorem nodeHeight_of_le_one {n : Nat} {e : Expr} (h : e.height ≤ 1) : NodeHeight n e :=
  Nat.le_trans h (Nat.le_add_left 1 _)

/-- The parse of a node without parts. -/
theorem measured_leaf (path : DocPath) (v : Value) :
    (nested path (pure (.const v))).Measured 1 (NodeHeight 1) := by
  have hheight : (Expr.const v).height ≤ 1 := Nat.le_refl 1
  exact (measured_pure (nodeHeight_of_le_one hheight)).nested path

mutual

/-- **The parse of a node needs the levels of the node**, and three expressions at most stand one in
    the other for each of them. -/
theorem measured_node (tree : Json) (path : DocPath) :
    (Outline.parse path (ofJson tree)).Measured tree.levels (NodeHeight tree.levels) := by
  rw [levels_eq]
  match tree with
  | .null | .bool _ | .number _ =>
    rw [ofJson, Outline.parse]
    exact measured_leaf path _
  | .text s =>
    rw [ofJson, Outline.parse]
    exact ((measured_text s path).mono fun _ => nodeHeight_of_le_one).nested path
  | .array items =>
    rw [ofJson, Outline.parse]
    refine ((measured_items items path 0).map fun es h => ?_).nested path
    simp only [NodeHeight, height, parts]
    omega
  | .object fields =>
    rw [ofJson, Outline.parse]
    exact ((measured_object fields path).map fun _ => BlockHeight.guarded).nested path
termination_by (sizeOf tree, 0)

theorem measured_items (items : List Json) (path : DocPath) (i : Nat) :
    (parseItems path i (ofJsonItems items)).Measured (levelsOf items)
      fun es => itemsHeight es ≤ 3 * levelsOf items + 1 := by
  match items with
  | [] =>
    rw [ofJsonItems, parseItems]
    exact measured_pure (Nat.zero_le _)
  | item :: rest =>
    rw [ofJsonItems, parseItems]
    refine ((measured_node item (path.index i)).both (measured_items rest path (i + 1))).map
      fun found h => ?_
    simp only [NodeHeight] at h
    simp only [itemsHeight, levelsOf_cons]
    omega
termination_by (sizeOf items, 0)

/-- An object up to its guard. -/
theorem measured_object (fields : List (String × Json)) (path : DocPath) :
    (Block.parse path (ofJsonFields fields)).Measured (levelsOf (objectParts fields))
      (BlockHeight (levelsOf (objectParts fields))) := by
  cases hstrangers : Directive.strangers fields with
  | cons name rest =>
    rw [Block.parse_of_strangers hstrangers]
    exact measured_refuseEach _ _
  | nil =>
    have hguard := measured_optional (p := (field? fields Directive.guard).map
      (Condition.predicate (path.field Directive.guard))) fun q hq => by
        obtain ⟨tree, -, rfl⟩ := Option.map_eq_some_iff.mp hq
        exact measured_predicate _ tree
    have hbody := measured_body fields path
    have hrepeated : (repeated (Block.parseBody path fields)
        ((field? fields Directive.source).map fun tree =>
          Outline.parse (path.field Directive.source) (ofJson tree))).Measured
        (levelsOf (objectParts fields)) fun e =>
          e.height ≤ 3 * levelsOf (objectParts fields) + 3 := by
      cases hsource : field? fields Directive.source with
      | none =>
        rw [objectParts, hsource]
        exact hbody.mono fun _ => Nat.le_succ_of_le
      | some tree =>
        have hless := sizeOf_field?_lt hsource
        rw [objectParts, hsource, levelsOf_append, Nat.max_comm, Option.toList_some,
          levelsOf_singleton]
        refine (hbody.both (measured_node tree (path.field Directive.source))).map
          fun found h => ?_
        simp only [NodeHeight] at h
        simp only [height]
        omega
    have hboth := hguard.both hrepeated
    rw [Nat.zero_max] at hboth
    rw [Block.parse_of_no_strangers hstrangers]
    exact hboth
termination_by (sizeOf fields, 2)

/-- The body of an object, without its repetition. -/
theorem measured_body (fields : List (String × Json)) (path : DocPath) :
    (Block.parseBody path fields).Measured (levelsOf (bodyParts fields))
      fun e => e.height ≤ 3 * levelsOf (bodyParts fields) + 2 := by
  unfold Block.parseBody bodyParts
  cases hclauses : field? fields Directive.clauses with
  | some tree =>
    have hless := sizeOf_field?_lt hclauses
    refine (measured_complain _).andThen ?_
    match tree with
    | .array items =>
      have hitems : sizeOf items < sizeOf fields := by
        simp only [array.sizeOf_spec] at hless
        omega
      rw [ofJson, parseClauses]
      refine (measured_clauseItems items (path.field Directive.clauses) 0).map fun clauses h => ?_
      simp only [height, Json.clauses]
      omega
    | .null | .bool _ | .number _ | .text _ | .object _ =>
      rw [ofJson, parseClauses]
      exact measured_refuse _ _
  | none =>
    cases hvalue : field? fields Directive.value with
    | some tree =>
      have hless := sizeOf_field?_lt hvalue
      have hnode := measured_node tree (path.field Directive.value)
      rw [← levelsOf_singleton] at hnode
      exact hnode.mono fun _ => Nat.le_succ_of_le
    | none =>
      refine (measured_entries fields path).map fun es h => ?_
      show height (.tree es) ≤ 3 * levelsOf (entryParts fields) + 2
      rw [height]
      omega
termination_by (sizeOf fields, 1)

/-- Clauses keep their guards apart, so that a clause is one expression lower than a node. -/
theorem measured_clauseItems (items : List Json) (path : DocPath) (i : Nat) :
    (parseClauseItems path i (ofJsonItems items)).Measured (levelsOf items)
      fun clauses => clausesHeight clauses ≤ 3 * levelsOf items := by
  match items with
  | [] =>
    rw [ofJsonItems, parseClauseItems]
    exact measured_pure (Nat.zero_le _)
  | .object fields :: rest =>
    rw [ofJsonItems, ofJson, parseClauseItems, levelsOf_cons, levels_eq]
    refine (((measured_object fields (path.index i)).nested _).both
      (measured_clauseItems rest path (i + 1))).map fun found h => ?_
    simp only [parts]
    exact h.1.clause (by omega) (by omega)
  | .null :: rest | .bool _ :: rest | .number _ :: rest | .text _ :: rest | .array _ :: rest =>
    intro clauses hclauses
    obtain ⟨⟨_, hrefuse⟩, -⟩ := Yields.of_andThen hclauses
    exact absurd hrefuse (not_yields_refuse _ _)
termination_by (sizeOf items, 0)

/-- The entries of an object. -/
theorem measured_entries (fields : List (String × Json)) (path : DocPath) :
    (parseEntries path (entriesOf fields)).Measured (levelsOf (entryParts fields))
      fun es => entriesHeight es ≤ 3 * levelsOf (entryParts fields) + 1 := by
  match fields with
  | [] =>
    rw [entriesOf, parseEntries]
    exact measured_pure (Nat.zero_le _)
  | (name, tree) :: rest =>
    have hrest := measured_entries rest path
    rw [entriesOf, entryParts]
    by_cases hcontainer : name = Directive.container
    · rw [if_pos hcontainer, if_pos hcontainer, parseEntries, levelsOf_append]
      refine ((measured_branches tree (path.field Directive.container)).both hrest).map
        fun found h => ?_
      rw [Expr.entriesHeight_merge_append]
      omega
    · rw [if_neg hcontainer, if_neg hcontainer]
      by_cases hlooks : Directive.looksLike name = true
      · rw [if_pos hlooks, if_pos hlooks]
        exact hrest
      · rw [if_neg hlooks, if_neg hlooks, parseEntries, levelsOf_cons]
        refine ((measured_node tree (path.field name)).both hrest).map fun found h => ?_
        simp only [NodeHeight] at h
        simp only [entriesHeight]
        omega
termination_by (sizeOf fields, 0)

/-- What stands under `@container`. -/
theorem measured_branches (tree : Json) (path : DocPath) :
    (parseBranches path (ofJson tree)).Measured (levelsOf tree.branches)
      fun branches => itemsHeight branches ≤ 3 * levelsOf tree.branches + 1 := by
  match tree with
  | .object fields =>
    have hnode := measured_node (.object fields) path
    rw [ofJson, Outline.parse] at hnode
    rw [ofJson, parseBranches]
    have hbranches : (Json.object fields).branches = [.object fields] := rfl
    rw [hbranches, levelsOf_singleton]
    refine hnode.map fun branch h => ?_
    simpa [itemsHeight, NodeHeight] using h
  | .array items =>
    rw [ofJson, parseBranches]
    exact measured_branchItems items path 0
  | .null | .bool _ | .number _ | .text _ =>
    rw [ofJson, parseBranches]
    exact measured_refuse _ _
termination_by (sizeOf tree, 1)

theorem measured_branchItems (items : List Json) (path : DocPath) (i : Nat) :
    (parseBranchItems path i (ofJsonItems items)).Measured (levelsOf items)
      fun branches => itemsHeight branches ≤ 3 * levelsOf items + 1 := by
  match items with
  | [] =>
    rw [ofJsonItems, parseBranchItems]
    exact measured_pure (Nat.zero_le _)
  | .object fields :: rest =>
    have hnode := measured_node (.object fields) (path.index i)
    rw [ofJson, Outline.parse] at hnode
    rw [ofJsonItems, ofJson, parseBranchItems, levelsOf_cons]
    refine (hnode.both (measured_branchItems rest path (i + 1))).map fun found h => ?_
    simp only [NodeHeight] at h
    simp only [itemsHeight]
    omega
  | .null :: rest | .bool _ :: rest | .number _ :: rest | .text _ :: rest | .array _ :: rest =>
    intro branches hbranches
    obtain ⟨⟨_, hrefuse⟩, -⟩ := Yields.of_andThen hbranches
    exact absurd hrefuse (not_yields_refuse _ _)
termination_by (sizeOf items, 0)

end

end Parse

/-! ## 7. Documents -/

namespace Parsed

open Parse

variable {options : ParseOptions} {document : Json} {e : Expr}

theorem measured_of_toExcept (h : (ofDocument options document).toExcept = .ok e) :
    (Outline.parse .root (Outline.ofJson document)).Needs document.levels e ∧
      NodeHeight document.levels e :=
  measured_node document .root e (yields_of_expr ((toExcept_eq_ok_iff options document).mp h))

/-- A document that needs more levels than there are is refused with a single error. -/
theorem refused_of_needs
    (h : (Outline.parse .root (Outline.ofJson document)).Needs document.levels e)
    (hlimit : options.maxDepth < document.levels) :
    ∃ d, (ofDocument options document).expr = none ∧
      (ofDocument options document).report.errors = [d] ∧
      (ofDocument options document).report.totalErrors = 1 ∧ d.code = .structuralLimit := by
  have hroom : (Report.withLimit options.maxErrors).isFull = false := by
    simp [Report.isFull, Report.withLimit]
  have hquiet : ¬Findings.Quiet ⟨Report.withLimit options.maxErrors, false⟩ := by
    simp [Findings.Quiet, hroom]
  obtain ⟨path, hrun⟩ := h.beyond options 0 _ (Nat.zero_le _) (by omega) hquiet
  refine ⟨(Fault.tooDeep options.maxDepth).on path, ?_, ?_, ?_, rfl⟩
  · simp only [ofDocument, hrun, ite_self]
  · simp only [ofDocument, hrun, Findings.exceed, Report.addError, hroom, Bool.false_eq_true,
      if_false]
    rfl
  · simp only [ofDocument, hrun]
    rfl

/-- What is parsed has the levels that it needs. -/
theorem levels_le_of_toExcept (h : (ofDocument options document).toExcept = .ok e) :
    document.levels ≤ options.maxDepth := by
  by_contra hlimit
  obtain ⟨d, hnone, -⟩ := refused_of_needs (measured_of_toExcept h).1 (Nat.lt_of_not_le hlimit)
  rw [toExcept_eq_ok_iff, hnone] at h
  cases h

/-- **The limit of depth is an exact threshold.** A document that is parsed under some limits is
    parsed under others exactly if these allow the levels that it needs, and always into the same
    expression; under a lower limit the excess of depth is the only error. -/
theorem toExcept_eq_ok_iff_levels (h : (ofDocument options document).toExcept = .ok e)
    (maxErrors maxDepth : Nat) :
    let parsed := ofDocument ⟨maxErrors, maxDepth⟩ document
    (∀ e', parsed.toExcept = .ok e' ↔ document.levels ≤ maxDepth ∧ e' = e) ∧
      (maxDepth < document.levels → parsed.report.totalErrors = 1 ∧
        ∃ d, parsed.report.errors = [d] ∧ d.code = .structuralLimit) := by
  intro parsed
  have hneeds := (measured_of_toExcept h).1
  constructor
  · intro e'
    constructor
    · intro h'
      have hlimit := levels_le_of_toExcept h'
      exact ⟨hlimit, (measured_of_toExcept h').1.unique hneeds⟩
    · rintro ⟨hlimit, rfl⟩
      refine toExcept_of_accepts (hneeds.within ⟨maxErrors, maxDepth⟩ 0 ?_)
      rwa [Nat.zero_add]
  · intro hlimit
    obtain ⟨d, -, herrors, htotal, hcode⟩ :=
      @refused_of_needs ⟨maxErrors, maxDepth⟩ document e hneeds hlimit
    exact ⟨htotal, d, herrors, hcode⟩

/-- A repetition of a clause, which needs four levels, under a limit of three. -/
theorem toExcept_eq_ok_iff_levels_clause :
    let document : Json := .object
      [("@repeat", .array [.null]),
        ("@when", .array
          [.object
            [("@if", .object [("StringEquals", .object [("user:name", .text "a")])]),
              ("@value", .array [.text "b"])]])]
    let e : Expr := .repetition (.list [.const .null]) (.conditional
      [.mk (some (.call ⟨⟨"user", "name"⟩, [⟨"cond", ["StringEquals", "a"]⟩]⟩))
        (.list [.text "b"])])
    let parsed := ofDocument ⟨1, 3⟩ document
    document.levels = 4 ∧ (ofDocument .default document).toExcept = .ok e ∧
      (∀ e', parsed.toExcept = .ok e' ↔ document.levels ≤ 3 ∧ e' = e) ∧
      (3 < document.levels → parsed.report.totalErrors = 1 ∧
        ∃ d, parsed.report.errors = [d] ∧ d.code = .structuralLimit) := by
  intro document e parsed
  have hlevels : document.levels = 4 := by decide +kernel
  have hparse : (ofDocument .default document).toExcept = .ok e := by rfl
  exact ⟨hlevels, hparse, toExcept_eq_ok_iff_levels hparse 1 3⟩

/-- **The limit of depth bounds the height of the expression**, and with it the recursion of its
    evaluation. -/
theorem height_le_of_toExcept (h : (ofDocument options document).toExcept = .ok e) :
    e.height ≤ 3 * options.maxDepth + 1 := by
  have hheight : e.height ≤ 3 * document.levels + 1 := (measured_of_toExcept h).2
  have hlevels := levels_le_of_toExcept h
  omega

/-- A guarded repetition of an object with a guarded field, which is as high as it may be. -/
theorem height_le_of_toExcept_guarded_repetition :
    let condition : Json := .object [("StringEquals", .object
      [("user:name", .array [.text "a", .text "b"]), ("user:city", .text "c")])]
    let document : Json := .object
      [("@if", condition), ("@repeat", .text "$\x7buser:items\x7d"),
        ("field", .object [("@if", condition)])]
    let options : ParseOptions := ⟨20, 2⟩
    let equals (name literal : String) : Expr :=
      .call ⟨⟨"user", name⟩, [⟨"cond", ["StringEquals", literal]⟩]⟩
    let guard : Expr := .all [.any [equals "name" "a", equals "name" "b"], equals "city" "c"]
    let e : Expr := .conditional [.mk (some guard)
      (.repetition (.interpolated [.call ⟨⟨"user", "items"⟩, []⟩])
        (.tree [.field "field" (.conditional [.mk (some guard) (.tree [])])]))]
    (ofDocument options document).toExcept = .ok e ∧ e.height = 3 * options.maxDepth + 1 ∧
      e.height ≤ 3 * options.maxDepth + 1 := by
  intro condition document options equals guard e
  have hparse : (ofDocument options document).toExcept = .ok e := by rfl
  have hheight : e.height = 3 * options.maxDepth + 1 := by decide +kernel
  exact ⟨hparse, hheight, height_le_of_toExcept hparse⟩

end Parsed

end Stencil
