import Stencil.Proofs.Document.Interpretation
import Stencil.Proofs.Json

/-!
# Documents without directives

A document none of whose fields looks like a directive is parsed and evaluated to itself, texts
apart. This file fixes

* what is read off such a document: that it is plain (`Json.isPlain`), how deep it is
  (`Json.nesting`), its texts in order (`Json.texts`) and the number of its nodes (`Json.size`);
* its expression, given those of its texts (`Json.echo`), and the value of that, given those of the
  texts (`Value.mapTexts`);
* what an evaluation costs (`Metered.Costs`).
-/

namespace Stencil

/-! ## 1. Measures of a document -/

namespace Json

mutual

/-- Does no field anywhere in a document look like a directive? -/
def isPlain : Json → Bool
  | .null => true
  | .bool _ => true
  | .number _ => true
  | .text _ => true
  | .array items => itemsPlain items
  | .object fields => fieldsPlain fields

/-- The same of the elements of an array. -/
def itemsPlain : List Json → Bool
  | [] => true
  | item :: rest => isPlain item && itemsPlain rest

/-- The same of the fields of an object. -/
def fieldsPlain : List (String × Json) → Bool
  | [] => true
  | (name, tree) :: rest => !Directive.looksLike name && isPlain tree && fieldsPlain rest

end

mutual

/-- The number of levels of a document: one, and those of its deepest part. -/
def nesting : Json → Nat
  | .null => 1
  | .bool _ => 1
  | .number _ => 1
  | .text _ => 1
  | .array items => 1 + itemsNesting items
  | .object fields => 1 + fieldsNesting fields

/-- The number of levels of the elements of an array. -/
def itemsNesting : List Json → Nat
  | [] => 0
  | item :: rest => max (nesting item) (itemsNesting rest)

/-- The number of levels of the fields of an object. -/
def fieldsNesting : List (String × Json) → Nat
  | [] => 0
  | (_, tree) :: rest => max (nesting tree) (fieldsNesting rest)

end

mutual

/-- The texts of a document, in the order in which they are written. -/
def texts : Json → List String
  | .null => []
  | .bool _ => []
  | .number _ => []
  | .text s => [s]
  | .array items => itemTexts items
  | .object fields => fieldTexts fields

/-- The texts of the elements of an array. -/
def itemTexts : List Json → List String
  | [] => []
  | item :: rest => texts item ++ itemTexts rest

/-- The texts of the fields of an object. -/
def fieldTexts : List (String × Json) → List String
  | [] => []
  | (_, tree) :: rest => texts tree ++ fieldTexts rest

end

theorem mem_itemTexts {items : List Json} {s : String} :
    s ∈ itemTexts items ↔ ∃ item ∈ items, s ∈ item.texts := by
  induction items with
  | nil => simp [itemTexts]
  | cons item rest ih => simp [itemTexts, ih]

theorem mem_fieldTexts {fields : List (String × Json)} {s : String} :
    s ∈ fieldTexts fields ↔ ∃ field ∈ fields, s ∈ field.2.texts := by
  induction fields with
  | nil => simp [fieldTexts]
  | cons field rest ih => simp [fieldTexts, ih]

mutual

/-- The number of nodes of a document. -/
def size : Json → Nat
  | .null => 1
  | .bool _ => 1
  | .number _ => 1
  | .text _ => 1
  | .array items => 1 + itemsSize items
  | .object fields => 1 + fieldsSize fields

/-- The number of nodes of the elements of an array. -/
def itemsSize : List Json → Nat
  | [] => 0
  | item :: rest => size item + itemsSize rest

/-- The number of nodes of the fields of an object. -/
def fieldsSize : List (String × Json) → Nat
  | [] => 0
  | (_, tree) :: rest => size tree + fieldsSize rest

end

/-! ## 2. Echoes -/

section Echo

variable (alone : String → Expr)

mutual

/-- The expression of a plain document, given those of its texts. -/
def echo : Json → Expr
  | .null => .const .null
  | .bool b => .const (.bool b)
  | .number n => .const (.number (Value.numberOf n))
  | .text s => alone s
  | .array items => .list (echoItems items)
  | .object fields => .tree (echoFields fields)

/-- The expressions of the elements of an array. -/
def echoItems : List Json → List Expr
  | [] => []
  | item :: rest => echo item :: echoItems rest

/-- The entries of an object. -/
def echoFields : List (String × Json) → List Entry
  | [] => []
  | (name, tree) :: rest => .field name (echo tree) :: echoFields rest

end

end Echo

end Json

section MapTexts

variable (f : String → Value)

mutual

/-- A value with something else for each of its texts. -/
def Value.mapTexts : Value → Value
  | .null => .null
  | .bool b => .bool b
  | .number n => .number n
  | .text s => f s
  | .sequence items => .sequence (Value.mapItemTexts items)
  | .mapping fields => .mapping (Value.mapFieldTexts fields)

/-- The same of the elements of a sequence. -/
def Value.mapItemTexts : List Value → List Value
  | [] => []
  | item :: rest => Value.mapTexts item :: Value.mapItemTexts rest

/-- The same of the fields of a mapping. -/
def Value.mapFieldTexts : List (String × Value) → List (String × Value)
  | [] => []
  | (name, v) :: rest => (name, Value.mapTexts v) :: Value.mapFieldTexts rest

end

theorem Value.mapFieldTexts_eq (fields : List (String × Value)) :
    mapFieldTexts f fields = fields.map fun field => (field.1, mapTexts f field.2) := by
  induction fields with
  | nil => rfl
  | cons field rest ih => rw [mapFieldTexts, ih, List.map_cons]

end MapTexts

/-! ## 3. Parsing -/

namespace Parse

variable {α β : Type}

/-- A parse that has a result at some depth, finds nothing wrong, and changes no report that still
    takes errors. -/
def Accepts (p : Parse α) (options : ParseOptions) (depth : Nat) (a : α) : Prop :=
  ∀ found, found.report.isFull = false → p options depth found = (some a, found)

theorem accepts_pure (options : ParseOptions) (depth : Nat) (a : α) :
    (pure a).Accepts options depth a :=
  fun _ _ => rfl

variable {options : ParseOptions} {depth : Nat}

theorem Accepts.map {p : Parse α} {a : α} (h : p.Accepts options depth a) (f : α → β) :
    (p.map f).Accepts options depth (f a) := by
  intro found hfull
  rw [Parse.map, h found hfull]
  rfl

theorem Accepts.both {p : Parse α} {q : Parse β} {a : α} {b : β} (hp : p.Accepts options depth a)
    (hq : q.Accepts options depth b) : (p.both q).Accepts options depth (a, b) := by
  intro found hfull
  rw [Parse.both, hp found hfull]
  show (_, _) = _
  rw [hq found hfull]
  rfl

theorem Accepts.nested {p : Parse α} {a : α} (path : DocPath)
    (hdepth : depth + 1 ≤ options.maxDepth) (h : p.Accepts options (depth + 1) a) :
    (nested path p).Accepts options depth a := by
  intro found hfull
  have hentered : ¬options.maxDepth < depth + 1 := Nat.not_lt_of_le hdepth
  rw [Parse.nested, hfull, if_neg Bool.false_ne_true, if_neg hentered, h found hfull]

end Parse

namespace Json

open Parse Outline

/-- An ordinary field is no container. -/
theorem ne_container_of_not_looksLike {name : String} (h : Directive.looksLike name = false) :
    name ≠ Directive.container := by
  rintro rfl
  exact absurd h (by decide)

theorem fieldsPlain_cons {name : String} {tree : Json} {rest : List (String × Json)}
    (h : fieldsPlain ((name, tree) :: rest) = true) :
    Directive.looksLike name = false ∧ tree.isPlain = true ∧ fieldsPlain rest = true := by
  simpa [fieldsPlain, and_assoc] using h

theorem ordinary_of_fieldsPlain {fields : List (String × Json)} (h : fieldsPlain fields = true) :
    ∀ field ∈ fields, Directive.looksLike field.1 = false := by
  induction fields with
  | nil => exact List.forall_mem_nil _
  | cons field rest ih =>
    obtain ⟨hname, -, hrest⟩ := fieldsPlain_cons h
    exact List.forall_mem_cons.mpr ⟨hname, ih hrest⟩

/-- The block of an object without directives holds its fields and nothing else. -/
theorem ofJsonFields_of_ordinary {fields : List (String × Json)}
    (h : ∀ field ∈ fields, Directive.looksLike field.1 = false) :
    ofJsonFields fields = .mk [] none none none none (entriesOf fields) := by
  induction fields with
  | nil => rfl
  | cons field rest ih =>
    obtain ⟨hname, hrest⟩ := List.forall_mem_cons.mp h
    rw [ofJsonFields, ih hrest, entriesOf, if_neg (ne_container_of_not_looksLike hname),
      if_neg (Bool.eq_false_iff.mp hname), Block.cons, hname]
    rfl

variable {alone : String → Expr} {options : ParseOptions}

mutual

/-- **A plain document is parsed into its echo**, if it is not too deep and its texts can be
    read. -/
theorem accepts_echo : ∀ {tree : Json} (path : DocPath) (depth : Nat), tree.isPlain = true →
    depth + tree.nesting ≤ options.maxDepth →
    (∀ s ∈ tree.texts, Template.read s .root = .ok (alone s)) →
    (Outline.parse path (ofJson tree)).Accepts options depth (tree.echo alone)
  | .null, path, _, _, hdepth, _ | .bool _, path, _, _, hdepth, _
  | .number _, path, _, _, hdepth, _ => by
    rw [ofJson, Outline.parse]
    exact (accepts_pure options _ _).nested path hdepth
  | .text s, path, _, _, hdepth, htexts => by
    have hread := Template.read_eq_ok_at (htexts s (List.mem_singleton.mpr rfl)) path
    rw [ofJson, Outline.parse, text_eq_pure hread]
    exact (accepts_pure options _ _).nested path hdepth
  | .array items, path, depth, hplain, hdepth, htexts => by
    rw [nesting] at hdepth
    rw [ofJson, Outline.parse]
    refine Accepts.nested path (by omega) (Accepts.map ?_ Expr.list)
    exact accepts_echoItems path 0 (depth + 1) hplain (by omega) htexts
  | .object fields, path, depth, hplain, hdepth, htexts => by
    rw [nesting] at hdepth
    have hentries := accepts_echoFields path (depth + 1) hplain (by omega) htexts
    rw [ofJson, Outline.parse, ofJsonFields_of_ordinary (ordinary_of_fieldsPlain hplain),
      Block.parse.eq_def]
    refine Accepts.nested path (by omega) (Accepts.map (a := (none, _)) ?_ Expr.guarded)
    exact (accepts_pure options _ none).both (hentries.map Expr.tree)

theorem accepts_echoItems : ∀ {items : List Json} (path : DocPath) (i depth : Nat),
    itemsPlain items = true → depth + itemsNesting items ≤ options.maxDepth →
    (∀ s ∈ itemTexts items, Template.read s .root = .ok (alone s)) →
    (parseItems path i (ofJsonItems items)).Accepts options depth (echoItems alone items)
  | [], _, _, _, _, _, _ => by
    rw [ofJsonItems, parseItems]
    exact accepts_pure options _ []
  | item :: rest, path, i, depth, hplain, hdepth, htexts => by
    rw [itemsPlain, Bool.and_eq_true] at hplain
    rw [itemsNesting] at hdepth
    rw [itemTexts] at htexts
    have hitem := accepts_echo (path.index i) depth hplain.1 (by omega)
      fun s hs => htexts s (List.mem_append_left _ hs)
    have hrest := accepts_echoItems path (i + 1) depth hplain.2 (by omega)
      fun s hs => htexts s (List.mem_append_right _ hs)
    rw [ofJsonItems, parseItems]
    exact (hitem.both hrest).map _

theorem accepts_echoFields : ∀ {fields : List (String × Json)} (path : DocPath) (depth : Nat),
    fieldsPlain fields = true → depth + fieldsNesting fields ≤ options.maxDepth →
    (∀ s ∈ fieldTexts fields, Template.read s .root = .ok (alone s)) →
    (parseEntries path (entriesOf fields)).Accepts options depth (echoFields alone fields)
  | [], _, _, _, _, _ => by
    rw [entriesOf, parseEntries]
    exact accepts_pure options _ []
  | (name, tree) :: rest, path, depth, hplain, hdepth, htexts => by
    obtain ⟨hname, htree, hplain'⟩ := fieldsPlain_cons hplain
    rw [fieldsNesting] at hdepth
    rw [fieldTexts] at htexts
    have hfirst := accepts_echo (path.field name) depth htree (by omega)
      fun s hs => htexts s (List.mem_append_left _ hs)
    have hrest := accepts_echoFields path depth hplain' (by omega)
      fun s hs => htexts s (List.mem_append_right _ hs)
    rw [entriesOf, if_neg (ne_container_of_not_looksLike hname),
      if_neg (Bool.eq_false_iff.mp hname), parseEntries]
    exact (hfirst.both hrest).map _

end

/-- The expression of a text has no directives. -/
theorem isDirectiveFree_of_read {s : String} {e : Expr} (h : Template.read s .root = .ok e) :
    e.isDirectiveFree = true := by
  cases hopening : Template.hasOpening s.toList with
  | false =>
    rw [Template.read_of_not_hasOpening _ hopening] at h
    obtain rfl := Except.ok.inj h
    rfl
  | true =>
    obtain ⟨parts, pieces, -, -, -, rfl⟩ := (Template.read_eq_ok_iff hopening).mp h
    rfl

mutual

theorem isDirectiveFree_echo : ∀ {tree : Json}, (∀ s ∈ tree.texts, (alone s).isDirectiveFree) →
    (tree.echo alone).isDirectiveFree = true
  | .null, _ | .bool _, _ | .number _, _ => rfl
  | .text s, h => h s (List.mem_singleton.mpr rfl)
  | .array _, h => itemsDirectiveFree_echo h
  | .object _, h => entriesDirectiveFree_echo h

theorem itemsDirectiveFree_echo : ∀ {items : List Json},
    (∀ s ∈ itemTexts items, (alone s).isDirectiveFree) →
    Expr.itemsDirectiveFree (echoItems alone items) = true
  | [], _ => rfl
  | item :: rest, h => by
    rw [itemTexts] at h
    rw [echoItems, Expr.itemsDirectiveFree, Bool.and_eq_true]
    exact ⟨isDirectiveFree_echo fun s hs => h s (List.mem_append_left _ hs),
      itemsDirectiveFree_echo fun s hs => h s (List.mem_append_right _ hs)⟩

theorem entriesDirectiveFree_echo : ∀ {fields : List (String × Json)},
    (∀ s ∈ fieldTexts fields, (alone s).isDirectiveFree) →
    Expr.entriesDirectiveFree (echoFields alone fields) = true
  | [], _ => rfl
  | (name, tree) :: rest, h => by
    rw [fieldTexts] at h
    rw [echoFields, Expr.entriesDirectiveFree, Bool.and_eq_true]
    exact ⟨isDirectiveFree_echo fun s hs => h s (List.mem_append_left _ hs),
      entriesDirectiveFree_echo fun s hs => h s (List.mem_append_right _ hs)⟩

end

end Json

/-! ## 4. Evaluation -/

namespace Metered

variable {α β : Type}

/-- A computation without a limit that has a result and uses so much gas. -/
def Costs (m : Metered α) (a : α) (n : Nat) : Prop :=
  ∀ gas, m none gas = (.ok a, gas + n)

theorem costs_pure (a : α) : (pure a).Costs a 0 :=
  fun _ => rfl

theorem Costs.bind {m : Metered α} {f : α → Metered β} {a : α} {b : β} {n k : Nat}
    (hm : m.Costs a n) (hf : (f a).Costs b k) : (m.bind f).Costs b (n + k) := by
  intro gas
  unfold Metered.bind
  rw [hm gas]
  show f a none (gas + n) = _
  rw [hf (gas + n), Nat.add_assoc]

theorem Costs.map {m : Metered α} {a : α} {n : Nat} (hm : m.Costs a n) (f : α → β) :
    (m.map f).Costs (f a) n := by
  intro gas
  unfold Metered.map Metered.bind
  rw [hm gas]
  rfl

theorem costs_tick_bind {m : Metered α} {a : α} {n : Nat} (hm : m.Costs a n) :
    (tick.bind fun _ => m).Costs a (1 + n) := by
  intro gas
  show m none (gas + 1) = _
  rw [hm (gas + 1), Nat.add_assoc]

theorem Costs.means {m : Metered α} {a : α} {n : Nat} (hm : m.Costs a n) : m.Means (.ok a) := by
  intro gas
  rw [hm gas]

/-- Behind a result, the outcome is that of what comes next. -/
theorem Means.ok_bind {m : Metered α} {f : α → Metered β} {a : α} {o : Outcome β}
    (hm : m.Means (.ok a)) (hf : (f a).Means o) : (m.bind f).Means o :=
  hm.bind (g := fun _ => o) fun b hb => by
    obtain rfl := Except.ok.inj hb
    exact hf

/-- Behind an error nothing comes. -/
theorem Means.error_bind {m : Metered α} {error : EvalError} (hm : m.Means (.error error))
    (f : α → Metered β) : (m.bind f).Means (.error error) :=
  hm.bind (g := fun _ => .error error) fun _ h => by cases h

theorem Means.error_map {m : Metered α} {error : EvalError} (hm : m.Means (.error error))
    (f : α → β) : (m.map f).Means (.error error) :=
  hm.map f

end Metered

namespace Json

open Metered

variable {env : Env} {context : Context} {alone : String → Expr} {values : String → Value}

mutual

/-- **The echo of a document evaluates to its value**, with the values of its texts, and every node
    costs one unit. -/
theorem costs_echo : ∀ {tree : Json},
    (∀ s ∈ tree.texts, (env.eval (alone s) context).Costs (some (values s)) 1) →
    (env.eval (tree.echo alone) context).Costs
      (some ((Value.ofJson tree).mapTexts values)) tree.size
  | .null, _ | .bool _, _ | .number _, _ => by
    rw [echo, Env.eval]
    exact costs_tick_bind (costs_pure _)
  | .text s, h => h s (List.mem_singleton.mpr rfl)
  | .array items, h => by
    rw [echo, Env.eval]
    exact costs_tick_bind ((costs_echoItems h).map _)
  | .object fields, h => by
    have hvalue : (Value.ofJson (.object fields)).mapTexts values = .mapping
        (Dictionary.extend [] (Value.mapFieldTexts values (Value.ofJsonFields fields))) := by
      rw [Value.ofJson, Value.mapTexts, Value.mapFieldTexts_eq, Value.mapFieldTexts_eq,
        Dictionary.ofList, Dictionary.map_extend]
      rfl
    rw [echo, Env.eval, hvalue]
    exact costs_tick_bind ((costs_echoFields [] h).map _)

theorem costs_echoItems : ∀ {items : List Json},
    (∀ s ∈ itemTexts items, (env.eval (alone s) context).Costs (some (values s)) 1) →
    (env.evalItems (echoItems alone items) context).Costs
      (Value.mapItemTexts values (Value.ofJsonItems items)) (itemsSize items)
  | [], _ => by
    rw [echoItems, Env.evalItems]
    exact costs_pure []
  | item :: rest, h => by
    rw [itemTexts] at h
    have hitem := costs_echo fun s hs => h s (List.mem_append_left _ hs)
    have hrest := costs_echoItems fun s hs => h s (List.mem_append_right _ hs)
    rw [echoItems, Env.evalItems]
    exact hitem.bind (hrest.map _)

theorem costs_echoFields : ∀ {fields : List (String × Json)} (found : List (String × Value)),
    (∀ s ∈ fieldTexts fields, (env.eval (alone s) context).Costs (some (values s)) 1) →
    (env.evalEntries (echoFields alone fields) context found).Costs
      (Dictionary.extend found (Value.mapFieldTexts values (Value.ofJsonFields fields)))
      (fieldsSize fields)
  | [], found, _ => by
    rw [echoFields, Env.evalEntries]
    exact costs_pure found
  | (name, tree) :: rest, found, h => by
    rw [fieldTexts] at h
    have htree := costs_echo fun s hs => h s (List.mem_append_left _ hs)
    rw [echoFields, Env.evalEntries]
    exact htree.bind (costs_echoFields _ fun s hs => h s (List.mem_append_right _ hs))

end

/-- A member of two lists put together lies in the first, or behind it in the second. -/
theorem split_append {α : Type} {xs ys before after : List α} {x : α}
    (h : xs ++ ys = before ++ x :: after) :
    (∃ between, xs = before ++ x :: between) ∨
      ∃ between, before = xs ++ between ∧ ys = between ++ x :: after := by
  rcases List.append_eq_append_iff.mp h with ⟨between, hbefore, hys⟩ | ⟨between, hxs, hafter⟩
  · exact .inr ⟨between, hbefore, hys⟩
  · cases between with
    | nil => exact .inr ⟨[], by simpa using hxs.symm, by simpa using hafter.symm⟩
    | cons y between =>
      obtain ⟨rfl, -⟩ := List.cons.inj hafter
      exact .inl ⟨between, hxs⟩

variable {error : EvalError} {s : String} {before after : List String}

mutual

/-- **The first text that fails ends the evaluation**, with its error. -/
theorem fails_echo : ∀ {tree : Json} {before after : List String},
    tree.texts = before ++ s :: after →
    (∀ t ∈ before, (env.eval (alone t) context).Costs (some (values t)) 1) →
    (env.eval (alone s) context).Means (.error error) →
    (env.eval (tree.echo alone) context).Means (.error error)
  | .null, _, _, h, _, _ | .bool _, _, _, h, _, _ | .number _, _, _, h, _, _ =>
    absurd h.symm (List.append_ne_nil_of_right_ne_nil _ (List.cons_ne_nil s _))
  | .text t, before, after, h, _, herror => by
    cases before with
    | nil =>
      obtain ⟨rfl, -⟩ := List.cons.inj h
      exact herror
    | cons first more =>
      have hlength := congrArg List.length h
      simp only [texts, List.length_cons, List.length_append, List.length_nil] at hlength
      omega
  | .array items, _, _, h, hbefore, herror => by
    rw [echo, Env.eval]
    exact means_tick_bind ((fails_echoItems h hbefore herror).error_map _)
  | .object fields, _, _, h, hbefore, herror => by
    rw [echo, Env.eval]
    exact means_tick_bind ((fails_echoFields [] h hbefore herror).error_map _)

theorem fails_echoItems : ∀ {items : List Json} {before after : List String},
    itemTexts items = before ++ s :: after →
    (∀ t ∈ before, (env.eval (alone t) context).Costs (some (values t)) 1) →
    (env.eval (alone s) context).Means (.error error) →
    (env.evalItems (echoItems alone items) context).Means (.error error)
  | [], _, _, h, _, _ =>
    absurd h.symm (List.append_ne_nil_of_right_ne_nil _ (List.cons_ne_nil s _))
  | item :: rest, before, after, h, hbefore, herror => by
    rw [itemTexts] at h
    rw [echoItems, Env.evalItems]
    rcases split_append h with ⟨between, hitem⟩ | ⟨between, rfl, hrest⟩
    · exact (fails_echo hitem hbefore herror).error_bind _
    · have hitem : (env.eval (item.echo alone) context).Costs _ _ :=
        costs_echo fun t ht => hbefore t (List.mem_append_left _ ht)
      have hbetween := fun t ht => hbefore t (List.mem_append_right _ ht)
      exact hitem.means.ok_bind ((fails_echoItems hrest hbetween herror).error_map _)

theorem fails_echoFields : ∀ {fields : List (String × Json)} {before after : List String}
    (found : List (String × Value)),
    fieldTexts fields = before ++ s :: after →
    (∀ t ∈ before, (env.eval (alone t) context).Costs (some (values t)) 1) →
    (env.eval (alone s) context).Means (.error error) →
    (env.evalEntries (echoFields alone fields) context found).Means (.error error)
  | [], _, _, _, h, _, _ =>
    absurd h.symm (List.append_ne_nil_of_right_ne_nil _ (List.cons_ne_nil s _))
  | (name, tree) :: rest, before, after, found, h, hbefore, herror => by
    rw [fieldTexts] at h
    rw [echoFields, Env.evalEntries]
    rcases split_append h with ⟨between, htree⟩ | ⟨between, rfl, hrest⟩
    · exact (fails_echo htree hbefore herror).error_bind _
    · have htree : (env.eval (tree.echo alone) context).Costs _ _ :=
        costs_echo fun t ht => hbefore t (List.mem_append_left _ ht)
      have hbetween := fun t ht => hbefore t (List.mem_append_right _ ht)
      exact htree.means.ok_bind (fails_echoFields _ hrest hbetween herror)

end

end Json

mutual

/-- Exchanging texts for themselves changes nothing. -/
theorem Value.mapTexts_text : ∀ v : Value, v.mapTexts .text = v
  | .null | .bool _ | .number _ | .text _ => rfl
  | .sequence items => congrArg _ (Value.mapItemTexts_text items)
  | .mapping fields => congrArg _ (Value.mapFieldTexts_text fields)

theorem Value.mapItemTexts_text : ∀ items : List Value, Value.mapItemTexts .text items = items
  | [] => rfl
  | item :: rest => by
    rw [mapItemTexts, mapTexts_text item, mapItemTexts_text rest]

theorem Value.mapFieldTexts_text : ∀ fields : List (String × Value),
    Value.mapFieldTexts .text fields = fields
  | [] => rfl
  | (name, v) :: rest => by
    rw [mapFieldTexts, mapTexts_text v, mapFieldTexts_text rest]

end

/-! ## 5. Plain documents -/

theorem Env.evaluate_of_read {s : String} {path : DocPath} {e : Expr}
    (h : Template.read s path = .ok e) (env : Env) (context : Context) :
    env.evaluate none e context = (env.interpretText context s, 1) := by
  rw [Env.evaluate_eq, evalDocument, eval_of_read h]
  cases hvalue : env.interpretText context s with
  | error error => rfl
  | ok v => rfl

/-- What is accepted is parsed, and nothing is reported. -/
theorem Parsed.toExcept_of_accepts {options : ParseOptions} {document : Json} {e : Expr}
    (h : (Outline.parse .root (Outline.ofJson document)).Accepts options 0 e) :
    (ofDocument options document).toExcept = .ok e := by
  have hroom : (Report.withLimit options.maxErrors).isFull = false := by
    simp [Report.isFull, Report.withLimit]
  have hrun := h ⟨Report.withLimit options.maxErrors, false⟩ hroom
  have hparsed : ofDocument options document = ⟨some e, Report.withLimit options.maxErrors⟩ := by
    simp only [ofDocument, hrun]
    rfl
  rw [hparsed]
  rfl

/-- A text is parsed on its own into the expression that it denotes. -/
theorem Parsed.read_of_toExcept {options : ParseOptions} {s : String} {e : Expr}
    (h : (ofDocument options (.text s)).toExcept = .ok e) : Template.read s .root = .ok e := by
  have hexpr : (ofDocument options (.text s)).expr = some e := by
    unfold toExcept at h
    split at h
    · next found hfound =>
      split at h
      · cases h
      · rw [hfound, Except.ok.inj h]
    · cases h
  have hparse := yields_of_expr hexpr
  rw [Outline.ofJson, Outline.parse] at hparse
  exact hparse.of_nested.of_text

/-- What the expression of a document gives in a context, where `alone` gives the expressions of
    its texts:

    * it fails exactly if one of the texts does, when evaluated alone;
    * and then with the error of the first one;
    * else it gives the value of the document, with the values of the texts in their places, and
      every node costs one unit;
    * so if no text has an opening and every integer fits 64 bits, a decoded document gives
      itself. -/
structure Json.Echoes (document : Json) (alone : String → Expr) (e : Expr) (env : Env)
    (context : Context) : Prop where
  fails_iff : (∃ error, (env.evaluate none e context).1 = .error error) ↔
    ∃ s ∈ document.texts, ∃ error, (env.evaluate none (alone s) context).1 = .error error
  first : ∀ before s after error, document.texts = before ++ s :: after →
    (∀ t ∈ before, ∃ v, (env.evaluate none (alone t) context).1 = .ok v) →
    (env.evaluate none (alone s) context).1 = .error error →
    (env.evaluate none e context).1 = .error error
  value : ∀ values : String → Value,
    (∀ s ∈ document.texts, (env.evaluate none (alone s) context).1 = .ok (values s)) →
    env.evaluate none e context = (.ok ((Value.ofJson document).mapTexts values), document.size)
  identity : document.Decoded →
    (∀ s ∈ document.texts, Template.hasOpening s.toList = false) →
    (∀ i, .int i ∈ document.numerals → Int64.minValue.toInt ≤ i ∧ i ≤ Int64.maxValue.toInt) →
    ∃ v, env.evaluate none e context = (.ok v, document.size) ∧ v.toJson = document

namespace Json

open Metered

variable {document : Json} {alone : String → Expr} {env : Env} {context : Context}

theorem costs_of_evaluate {s : String} {e : Expr} {v : Value}
    (h : Template.read s .root = .ok e) (hv : (env.evaluate none e context).1 = .ok v) :
    (env.eval e context).Costs (some v) 1 := by
  have hvalue : env.interpretText context s = .ok v := by
    rwa [Env.evaluate_of_read h] at hv
  rw [Env.eval_of_read h, hvalue]
  exact fun _ => rfl

theorem means_of_evaluate {s : String} {e : Expr} {error : EvalError}
    (h : Template.read s .root = .ok e) (herror : (env.evaluate none e context).1 = .error error) :
    (env.eval e context).Means (.error error) := by
  have hvalue : env.interpretText context s = .error error := by
    rwa [Env.evaluate_of_read h] at herror
  rw [Env.eval_of_read h, hvalue]
  exact fun _ => rfl

theorem evaluate_of_costs {e : Expr} {v : Value} {n : Nat}
    (h : (env.eval e context).Costs (some v) n) : env.evaluate none e context = (.ok v, n) := by
  have hdocument : env.evalDocument e context none 0 = (.ok v, 0 + n) := by
    unfold Env.evalDocument Metered.bind
    rw [h 0]
    rfl
  rw [Env.evaluate_eq, hdocument, Nat.zero_add]

theorem evaluate_of_means {e : Expr} {error : EvalError}
    (h : (env.eval e context).Means (.error error)) :
    (env.evaluate none e context).1 = .error error :=
  h.error_bind _ 0

/-- Of texts some of which fail, one fails first. -/
theorem exists_first_failure {o : String → Outcome Value} {texts : List String}
    (h : ∃ s ∈ texts, ∃ error, o s = .error error) :
    ∃ before s after error, texts = before ++ s :: after ∧ (∀ t ∈ before, ∃ v, o t = .ok v) ∧
      o s = .error error := by
  induction texts with
  | nil =>
    obtain ⟨s, hs, -⟩ := h
    cases hs
  | cons first rest ih =>
    cases hfirst : o first with
    | error error => exact ⟨[], first, rest, error, rfl, by simp, hfirst⟩
    | ok v =>
      obtain ⟨s, hs, error, herror⟩ := h
      have hrest : s ∈ rest := by
        refine (List.mem_cons.mp hs).resolve_left ?_
        rintro rfl
        rw [hfirst] at herror
        cases herror
      obtain ⟨before, t, after, error, rfl, hbefore, ht⟩ := ih ⟨s, hrest, error, herror⟩
      exact ⟨first :: before, t, after, error, rfl,
        List.forall_mem_cons.mpr ⟨⟨v, hfirst⟩, hbefore⟩, ht⟩

/-- Texts that have values have them by a function. -/
theorem exists_values {o : String → Outcome Value} {texts : List String}
    (h : ∀ s ∈ texts, ∃ v, o s = .ok v) : ∃ values : String → Value, ∀ s ∈ texts,
      o s = .ok (values s) := by
  refine ⟨fun s => (o s).toOption.getD .null, fun s hs => ?_⟩
  obtain ⟨v, hv⟩ := h s hs
  show o s = .ok ((o s).toOption.getD .null)
  rw [hv]
  rfl

section Echoes

variable (h : ∀ s ∈ document.texts, Template.read s .root = .ok (alone s))
include h

/-- The value of an echo. -/
theorem evaluate_echo {values : String → Value}
    (hvalues : ∀ s ∈ document.texts, (env.evaluate none (alone s) context).1 = .ok (values s)) :
    env.evaluate none (document.echo alone) context =
      (.ok ((Value.ofJson document).mapTexts values), document.size) :=
  evaluate_of_costs (costs_echo fun s hs => costs_of_evaluate (h s hs) (hvalues s hs))

/-- The error of an echo is that of the first text that fails. -/
theorem evaluate_echo_error {before after : List String} {s : String} {error : EvalError}
    (htexts : document.texts = before ++ s :: after)
    (hbefore : ∀ t ∈ before, ∃ v, (env.evaluate none (alone t) context).1 = .ok v)
    (herror : (env.evaluate none (alone s) context).1 = .error error) :
    (env.evaluate none (document.echo alone) context).1 = .error error := by
  have hs : s ∈ document.texts := by simp [htexts]
  have ht : ∀ t ∈ before, t ∈ document.texts := fun t ht => by simp [htexts, ht]
  obtain ⟨values, hvalues⟩ := exists_values hbefore
  exact evaluate_of_means (fails_echo htexts
    (fun t hmem => costs_of_evaluate (h t (ht t hmem)) (hvalues t hmem))
    (means_of_evaluate (h s hs) herror))

theorem evaluate_echo_fails_iff :
    (∃ error, (env.evaluate none (document.echo alone) context).1 = .error error) ↔
      ∃ s ∈ document.texts, ∃ error, (env.evaluate none (alone s) context).1 = .error error := by
  constructor
  · rintro ⟨error, herror⟩
    by_contra hnone
    have hall : ∀ s ∈ document.texts, ∃ v, (env.evaluate none (alone s) context).1 = .ok v := by
      intro s hs
      cases hvalue : (env.evaluate none (alone s) context).1 with
      | error error => exact absurd ⟨s, hs, error, hvalue⟩ hnone
      | ok v => exact ⟨v, rfl⟩
    obtain ⟨values, hvalues⟩ := exists_values hall
    rw [evaluate_echo h hvalues] at herror
    cases herror
  · intro hfails
    obtain ⟨before, s, after, error, htexts, hbefore, herror⟩ := exists_first_failure hfails
    exact ⟨error, evaluate_echo_error h htexts hbefore herror⟩

/-- Without openings, the value of an echo is that of the document. -/
theorem evaluate_echo_of_closed
    (hclosed : ∀ s ∈ document.texts, Template.hasOpening s.toList = false) :
    env.evaluate none (document.echo alone) context =
      (.ok (Value.ofJson document), document.size) := by
  have htexts : ∀ s ∈ document.texts,
      (env.evaluate none (alone s) context).1 = .ok (.text s) := by
    intro s hs
    rw [Env.evaluate_of_read (h s hs), Env.interpretText_eq,
      Template.read_of_not_hasOpening _ (hclosed s hs)]
    rfl
  rw [evaluate_echo h htexts, Value.mapTexts_text]

/-- **The echo of a document echoes it.** -/
theorem echoes_echo : document.Echoes alone (document.echo alone) env context where
  fails_iff := evaluate_echo_fails_iff h
  first _ _ _ _ htexts hbefore herror := evaluate_echo_error h htexts hbefore herror
  value _ hvalues := evaluate_echo h hvalues
  identity hdecoded hclosed hints :=
    ⟨Value.ofJson document, evaluate_echo_of_closed h hclosed, hdecoded.toJson_ofJson hints⟩

end Echoes

/-- **Documents without directives keep their shape.** A plain document that is not too deep, and
    each of whose texts is parsed on its own, is parsed; its expression has no directives, and it
    echoes the document under all keys and filters and in every context. -/
theorem echoes_of_plain {options : ParseOptions} (hplain : document.isPlain = true)
    (hnesting : document.nesting ≤ options.maxDepth)
    (halone : ∀ s ∈ document.texts,
      (Parsed.ofDocument options (.text s)).toExcept = .ok (alone s)) :
    ∃ e, (Parsed.ofDocument options document).toExcept = .ok e ∧ e.isDirectiveFree = true ∧
      ∀ env context, document.Echoes alone e env context := by
  have hread : ∀ s ∈ document.texts, Template.read s .root = .ok (alone s) :=
    fun s hs => Parsed.read_of_toExcept (halone s hs)
  refine ⟨document.echo alone, ?_, ?_, fun env context => echoes_echo hread⟩
  · exact Parsed.toExcept_of_accepts (accepts_echo .root 0 hplain (by omega) hread)
  · exact isDirectiveFree_echo fun s hs => isDirectiveFree_of_read (hread s hs)

/-- A document with a marker and a text in a sequence. -/
theorem echoes_of_plain_person :
    let document : Json := .object
      [("name", .text "$\x7buser:name\x7d"), ("tags", .array [.text "a", .number (.int 1), .null])]
    let alone (s : String) : Expr :=
      if s = "a" then .text s else .interpolated [.call ⟨⟨"user", "name"⟩, []⟩]
    document.isPlain = true ∧ document.nesting ≤ ParseOptions.default.maxDepth ∧
      (∀ s ∈ document.texts,
        (Parsed.ofDocument .default (.text s)).toExcept = .ok (alone s)) ∧
      ∃ e, (Parsed.ofDocument .default document).toExcept = .ok e ∧ e.isDirectiveFree = true ∧
        ∀ env context, document.Echoes alone e env context := by
  intro document alone
  have hplain : document.isPlain = true := by decide
  have hnesting : document.nesting ≤ ParseOptions.default.maxDepth := by decide
  have halone : ∀ s ∈ document.texts,
      (Parsed.ofDocument .default (.text s)).toExcept = .ok (alone s) := by
    have htexts : document.texts = ["$\x7buser:name\x7d", "a"] := by rfl
    rw [htexts]
    exact List.forall_mem_cons.mpr ⟨by rfl, List.forall_mem_cons.mpr ⟨by rfl, by simp⟩⟩
  exact ⟨hplain, hnesting, halone, echoes_of_plain hplain hnesting halone⟩

end Json

end Stencil
