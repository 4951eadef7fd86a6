import Stencil.Proofs.Document.Interpretation

/-!
# What condition objects decide

A condition object holds if every entry does, and an entry holds if one of its literals does. This
file fixes

* the comparisons that a condition object lists (`Condition.rows`), entry by entry, and what each of
  them comes out as (`Comparison.outcome`): the value of the key is tested against the literal as a
  text, whatever that text looks like;
* which comparisons are made at all (`Condition.Reached`): entries are gone through until one does
  not hold, and the literals of an entry until one does;
* the shape of what an accepted condition object is parsed into (`Condition.Compiled`), and that its
  evaluation is a truth value or an error, as the comparisons that are reached decide
  (`Condition.verdict_of_yields`).
-/

namespace Stencil

/-! ## 1. Tests one after the other -/

namespace Condition

/-- An element of a list is reached if all elements in front of it are passed. -/
def Reached {α : Type} (passed : α → Prop) (xs : List α) (x : α) : Prop :=
  ∃ before after, xs = before ++ x :: after ∧ ∀ y ∈ before, passed y

variable {α : Type} {passed : α → Prop}

theorem not_reached_nil (x : α) : ¬Reached passed [] x := by
  rintro ⟨before, after, hnil, -⟩
  simp at hnil

/-- The first element is reached, and those behind it if it is passed. -/
theorem reached_cons_iff {x y : α} {rest : List α} :
    Reached passed (x :: rest) y ↔ y = x ∨ (passed x ∧ Reached passed rest y) := by
  constructor
  · rintro ⟨before, after, hsplit, hpassed⟩
    cases before with
    | nil =>
      obtain ⟨rfl, -⟩ := List.cons.inj hsplit
      exact .inl rfl
    | cons z more =>
      obtain ⟨rfl, hrest⟩ := List.cons.inj hsplit
      obtain ⟨hx, hmore⟩ := List.forall_mem_cons.mp hpassed
      exact .inr ⟨hx, more, after, hrest, hmore⟩
  · rintro (rfl | ⟨hx, before, after, rfl, hbefore⟩)
    · exact ⟨[], rest, rfl, fun _ h => absurd h List.not_mem_nil⟩
    · exact ⟨x :: before, after, rfl, List.forall_mem_cons.mpr ⟨hx, hbefore⟩⟩

theorem Reached.mem {xs : List α} {x : α} (h : Reached passed xs x) : x ∈ xs := by
  obtain ⟨before, after, rfl, -⟩ := h
  exact List.mem_append_right before List.mem_cons_self

end Condition

namespace Outcome

open Condition

variable {α : Type} {test : α → Outcome Bool} {xs : List α}

/-- Tests one after the other; the first that comes out as `stop` ends them, and so does an
    error. -/
def upTo (stop : Bool) (test : α → Outcome Bool) : List α → Outcome Bool
  | [] => .ok !stop
  | x :: rest => (test x).bind fun b => if b = stop then .ok stop else upTo stop test rest

theorem upTo_singleton (stop : Bool) (x : α) : upTo stop test [x] = test x := by
  rw [upTo]
  rcases test x with error | b
  · rfl
  · cases b <;> cases stop <;> rfl

/-- Nothing ends the tests. -/
theorem upTo_eq_ok_not_iff (stop : Bool) :
    upTo stop test xs = .ok !stop ↔ ∀ x ∈ xs, test x = .ok !stop := by
  induction xs with
  | nil => simp [upTo]
  | cons x rest ih =>
    rw [upTo, List.forall_mem_cons, ← ih]
    rcases test x with error | b
    · simp [Except.bind]
    · cases b <;> cases stop <;> simp [Except.bind]

/-- **Where the tests end**: at the first that does not pass. -/
theorem upTo_eq_iff (stop : Bool) {o : Outcome Bool} (ho : o ≠ .ok !stop) :
    upTo stop test xs = o ↔ ∃ x, Reached (fun y => test y = .ok !stop) xs x ∧ test x = o := by
  induction xs with
  | nil =>
    refine iff_of_false (fun h => ho h.symm) ?_
    rintro ⟨x, hx, -⟩
    exact not_reached_nil x hx
  | cons x rest ih =>
    have hcons : (∃ y, Reached (fun y => test y = .ok !stop) (x :: rest) y ∧ test y = o) ↔
        test x = o ∨ (test x = .ok !stop ∧ upTo stop test rest = o) := by
      simp only [reached_cons_iff, or_and_right, exists_or, exists_eq_left, ih, and_assoc,
        exists_and_left]
    rw [hcons, upTo]
    rcases test x with error | b
    · simp [Except.bind]
    · by_cases hb : b = stop
      · simp [Except.bind, hb]
      · obtain rfl : b = !stop := Bool.eq_not.mpr hb
        simp [Except.bind, Ne.symm ho]

end Outcome

/-! ## 2. Comparisons -/

/-- A comparison of a condition object: the operator, the text of the key, and one of the
    literals. -/
structure Comparison where
  operator : String
  name : String
  literal : Json

namespace Comparison

/-- The literal as a text. -/
def text (c : Comparison) : String :=
  (Value.ofJson c.literal).display

/-- What a comparison comes out as: the value of its key is tested against its text. A name that is
    no key, which no accepted condition object has, compares with nothing. -/
def outcome (keys : Resolver) (context : Context) (c : Comparison) : Outcome Bool :=
  match Key.parse? c.name with
  | none => .ok false
  | some key =>
    match keys.resolve key context with
    | .error error => .error error
    | .ok v =>
      match Operator.parse? c.operator with
      | none => .error (.typeMismatch (.unknownOperator c.operator))
      | some op => op.test v (.text c.text)

/-- The operator holds between the value of the key and the text. -/
def Satisfied (keys : Resolver) (context : Context) (c : Comparison) : Prop :=
  ∃ key v op, Key.parse? c.name = some key ∧ keys.resolve key context = .ok v ∧
    Operator.parse? c.operator = some op ∧ op.test v (.text c.text) = .ok true

theorem satisfied_iff {keys : Resolver} {context : Context} {c : Comparison} :
    c.Satisfied keys context ↔ c.outcome keys context = .ok true := by
  unfold Satisfied outcome
  constructor
  · rintro ⟨key, v, op, hkey, hv, hop, htest⟩
    simp only [hkey, hv, hop, htest]
  · intro h
    cases hkey : Key.parse? c.name with
    | none => simp [hkey] at h
    | some key =>
      cases hv : keys.resolve key context with
      | error error => simp [hkey, hv] at h
      | ok v =>
        cases hop : Operator.parse? c.operator with
        | none => simp [hkey, hv, hop] at h
        | some op => exact ⟨key, v, op, rfl, hv, rfl, by simpa [hkey, hv, hop] using h⟩

/-- The expression that a comparison is parsed into: the literal is the last argument as it is. -/
def Compiled (c : Comparison) (e : Expr) : Prop :=
  ∃ key, Key.parse? c.name = some key ∧ e = Condition.compare key c.operator c.text

theorem Compiled.isSome_key {c : Comparison} {e : Expr} (h : c.Compiled e) :
    (Key.parse? c.name).isSome := by
  obtain ⟨key, hkey, -⟩ := h
  rw [hkey, Option.isSome_some]

end Comparison

namespace Condition

/-! ## 3. The comparisons of a condition object -/

/-- The literals of an entry: those of a sequence, or the single one. -/
def literals : Json → List Json
  | .array items => items
  | tree => [tree]

/-- The comparisons of an entry. -/
def row (operator name : String) (tree : Json) : List Comparison :=
  (literals tree).map fun literal => ⟨operator, name, literal⟩

/-- The entries under an operator. -/
def rowsUnder (operator : String) : Json → List (List Comparison)
  | .object entries => entries.map fun entry => row operator entry.1 entry.2
  | _ => []

/-- The comparisons of a condition object, entry by entry. -/
def rows (fields : List (String × Json)) : List (List Comparison) :=
  fields.flatMap fun field => rowsUnder field.1 field.2

/-- The expressions that an entry can be parsed into. -/
inductive Compiled : List Comparison → Expr → Prop where
  | single {c : Comparison} {e : Expr} (h : c.Compiled e) : Compiled [c] e
  | several {cs : List Comparison} {es : List Expr} (h : List.Forall₂ Comparison.Compiled cs es) :
      Compiled cs (.any es)

open Parse

theorem compiled_of_alternatives {key : Key} {operator name : String} {path : DocPath} {i : Nat}
    {trees : List Json} {es : List Expr} (hkey : Key.parse? name = some key)
    (h : (alternatives key operator path i trees).Yields es) :
    List.Forall₂ Comparison.Compiled (trees.map fun literal => ⟨operator, name, literal⟩) es := by
  induction trees generalizing i es with
  | nil =>
    obtain rfl := h.of_pure
    exact .nil
  | cons tree rest ih =>
    obtain ⟨⟨text, others⟩, hboth, rfl⟩ := Yields.of_map h
    obtain ⟨htext, hothers⟩ := hboth.of_both
    obtain rfl := eq_of_yields_literal htext
    exact .cons ⟨key, hkey, rfl⟩ (ih hothers)

theorem compiled_of_entry {operator name : String} {path : DocPath} {tree : Json} {e : Expr}
    (h : (entry operator path name tree).Yields e) : Compiled (row operator name tree) e := by
  unfold entry at h
  cases hkey : Key.parse? name with
  | none =>
    rw [hkey] at h
    exact absurd h (not_yields_refuse _ _)
  | some key =>
    rw [hkey] at h
    cases tree with
    | array options =>
      obtain ⟨es, hes, rfl⟩ := Yields.of_map h
      exact .several (compiled_of_alternatives hkey hes)
    | _ =>
      obtain ⟨text, htext, rfl⟩ := Yields.of_map h
      obtain rfl := eq_of_yields_literal htext
      exact .single ⟨key, hkey, rfl⟩

theorem compiled_of_entries {operator : String} {path : DocPath} {fields : List (String × Json)}
    {es : List Expr} (h : (entries operator path fields).Yields es) :
    List.Forall₂ Compiled (rowsUnder operator (.object fields)) es := by
  induction fields generalizing es with
  | nil =>
    obtain rfl := h.of_pure
    exact .nil
  | cons field rest ih =>
    obtain ⟨⟨first, others⟩, hboth, rfl⟩ := Yields.of_map h
    obtain ⟨hfirst, hothers⟩ := hboth.of_both
    exact .cons (compiled_of_entry hfirst) (ih hothers)

theorem compiled_of_operators {path : DocPath} {fields : List (String × Json)} {es : List Expr}
    (h : (operators path fields).Yields es) : List.Forall₂ Compiled (rows fields) es := by
  induction fields generalizing es with
  | nil =>
    obtain rfl := h.of_pure
    exact .nil
  | cons field rest ih =>
    obtain ⟨operator, tree⟩ := field
    rw [rows, List.flatMap_cons]
    cases tree with
    | object inner =>
      obtain ⟨⟨first, others⟩, hboth, rfl⟩ := Yields.of_map h
      obtain ⟨hfirst, hothers⟩ := hboth.of_both
      exact List.rel_append (compiled_of_entries hfirst) (ih hothers)
    | _ => exact ih (Yields.of_andThen h).2

/-- **The expression of a condition object**: its only entry, or the conjunction of several. -/
theorem compiled_of_object {path : DocPath} {fields : List (String × Json)} {e : Expr}
    (h : (object path fields).Yields e) :
    ∃ es, List.Forall₂ Compiled (rows fields) es ∧ (es = [e] ∨ (2 ≤ es.length ∧ e = .all es)) := by
  obtain ⟨options, depth, found, after, heq⟩ := h
  unfold object at heq
  rcases hrun : operators path fields options depth found with ⟨_ | es, between⟩
  · rw [hrun] at heq
    cases heq
  · rw [hrun] at heq
    have hes : (operators path fields).Yields es := ⟨options, depth, found, between, hrun⟩
    have he : (conjunction path es).Yields e := ⟨options, depth, between, after, heq⟩
    refine ⟨es, compiled_of_operators hes, ?_⟩
    match es, he with
    | [], he => exact absurd he (not_yields_refuse _ _)
    | [only], he => exact .inl (congrArg (fun e => [e]) he.of_pure)
    | first :: second :: more, he => exact .inr ⟨by simp, he.of_pure.symm⟩

theorem Compiled.isSome_key {cs : List Comparison} {e : Expr} (h : Compiled cs e) :
    ∀ c ∈ cs, (Key.parse? c.name).isSome := by
  cases h with
  | single h => exact List.forall_mem_singleton.mpr h.isSome_key
  | several h =>
    exact ((List.forall₂_and_left _ _).mp (h.imp fun _ _ hc => ⟨hc.isSome_key, hc⟩)).1

/-! ## 4. What the comparisons decide -/

section Decision

variable (keys : Resolver) (context : Context)

/-- The comparison is made, and it does not hold. -/
def Misses (c : Comparison) : Prop :=
  c.outcome keys context = .ok false

/-- An entry holds: a literal that is reached satisfies the operator. -/
def Holds (cs : List Comparison) : Prop :=
  ∃ c, Reached (Misses keys context) cs c ∧ c.Satisfied keys context

/-- What entries of comparisons decide, if entries are gone through until one does not hold and
    literals until one does. -/
structure Verdict (entries : List (List Comparison)) (decision : Outcome Bool) : Prop where
  /-- Without failures, every entry must have some literal. -/
  total : (∀ cs ∈ entries, ∀ c ∈ cs, ∃ b, c.outcome keys context = .ok b) →
    ∃ b, decision = .ok b ∧ (b = true ↔ ∀ cs ∈ entries, ∃ c ∈ cs, c.Satisfied keys context)
  holds_iff : decision = .ok true ↔ ∀ cs ∈ entries, Holds keys context cs
  /-- The first entry that does not hold decides. -/
  fails_iff : decision = .ok false ↔ ∃ cs, Reached (Holds keys context) entries cs ∧
    ∀ c ∈ cs, Misses keys context c
  /-- A failure shows if and only if it is reached. -/
  error_iff : ∀ error, decision = .error error ↔ ∃ cs c, Reached (Holds keys context) entries cs ∧
    Reached (Misses keys context) cs c ∧ c.outcome keys context = .error error

/-- The decision of an entry. -/
def decideRow : List Comparison → Outcome Bool :=
  Outcome.upTo true (Comparison.outcome keys context)

/-- The decision of all entries. -/
def decideRows : List (List Comparison) → Outcome Bool :=
  Outcome.upTo false (decideRow keys context)

end Decision

variable {keys : Resolver} {context : Context} {cs : List Comparison}
  {entries : List (List Comparison)}

theorem decideRow_eq_true_iff : decideRow keys context cs = .ok true ↔ Holds keys context cs := by
  have hne : (.ok true : Outcome Bool) ≠ .ok !true := by simp
  simp only [decideRow, Outcome.upTo_eq_iff true hne, Holds, Comparison.satisfied_iff]
  rfl

theorem decideRow_eq_false_iff :
    decideRow keys context cs = .ok false ↔ ∀ c ∈ cs, Misses keys context c :=
  Outcome.upTo_eq_ok_not_iff true

theorem decideRow_eq_error_iff {error : EvalError} : decideRow keys context cs = .error error ↔
    ∃ c, Reached (Misses keys context) cs c ∧ c.outcome keys context = .error error :=
  Outcome.upTo_eq_iff true (by simp)

/-- If nothing fails, an entry holds if some literal satisfies the operator. -/
theorem holds_iff_exists (h : ∀ c ∈ cs, ∃ b, c.outcome keys context = .ok b) :
    Holds keys context cs ↔ ∃ c ∈ cs, c.Satisfied keys context := by
  constructor
  · rintro ⟨c, hc, hsatisfied⟩
    exact ⟨c, hc.mem, hsatisfied⟩
  · rintro ⟨c, hc, hsatisfied⟩
    rcases hdecision : decideRow keys context cs with error | b
    · obtain ⟨d, hd, herror⟩ := decideRow_eq_error_iff.mp hdecision
      obtain ⟨b, hb⟩ := h d hd.mem
      rw [herror] at hb
      cases hb
    · cases b with
      | true => exact decideRow_eq_true_iff.mp hdecision
      | false =>
        have hmisses := decideRow_eq_false_iff.mp hdecision c hc
        rw [Misses, Comparison.satisfied_iff.mp hsatisfied] at hmisses
        cases hmisses

/-- **What the tests one after the other come to.** -/
theorem verdict_decideRows : Verdict keys context entries (decideRows keys context entries) := by
  have hholds : (fun cs => decideRow keys context cs = .ok !false) = Holds keys context :=
    funext fun cs => propext decideRow_eq_true_iff
  have htrue : decideRows keys context entries = .ok true ↔
      ∀ cs ∈ entries, Holds keys context cs := by
    rw [← hholds]
    exact Outcome.upTo_eq_ok_not_iff false
  have hends : ∀ o : Outcome Bool, o ≠ .ok true → (decideRows keys context entries = o ↔
      ∃ cs, Reached (Holds keys context) entries cs ∧ decideRow keys context cs = o) := by
    intro o ho
    rw [← hholds]
    exact Outcome.upTo_eq_iff false ho
  have herror : ∀ error, decideRows keys context entries = .error error ↔
      ∃ cs c, Reached (Holds keys context) entries cs ∧ Reached (Misses keys context) cs c ∧
        c.outcome keys context = .error error := by
    intro error
    rw [hends _ (by simp)]
    simp only [decideRow_eq_error_iff, exists_and_left]
  refine ⟨fun h => ?_, htrue, ?_, herror⟩
  · rcases hdecision : decideRows keys context entries with error | b
    · obtain ⟨cs, c, hcs, hc, hfails⟩ := (herror error).mp hdecision
      obtain ⟨b, hb⟩ := h cs hcs.mem c hc.mem
      rw [hfails] at hb
      cases hb
    · refine ⟨b, rfl, ?_⟩
      rw [hdecision, Except.ok.injEq] at htrue
      rw [htrue]
      exact forall₂_congr fun cs hcs => holds_iff_exists (h cs hcs)
  · rw [hends _ (by simp)]
    simp only [decideRow_eq_false_iff]

/-! ## 5. Evaluation -/

section Evaluation

open Metered

/-- With a single argument behind the operator, the argument is a text. -/
theorem evalCall_compare {c : Comparison} {key : Key} (hkey : Key.parse? c.name = some key) :
    (⟨keys, .standard⟩ : Env).evalCall context ⟨key, [⟨filterName, [c.operator, c.text]⟩]⟩ =
      (c.outcome keys context).map .bool := by
  have hfind : Registry.standard.find? filterName = some Filter.Comparison.cond := by rfl
  unfold Env.evalCall Comparison.outcome
  rw [hkey]
  cases hv : keys.resolve key context with
  | error error => simp only [hv, Except.map]
  | ok v =>
    simp only [hv, Registry.applyAll, Registry.apply, hfind, Filter.Comparison.cond,
      Filter.Comparison.operand]
    cases Operator.parse? c.operator with
    | none => rfl
    | some op =>
      dsimp only
      cases op.test v (.text c.text) <;> rfl

/-- What has a truth value decides it. -/
theorem decides_of_means {m : Metered (Option Value)} {o : Outcome Bool}
    (h : m.Means (o.map fun b => some (.bool b))) : m.Decides o := by
  have hmap := h.map fun held => (held.getD .null).isTruthy
  cases o <;> exact hmap

theorem means_compiled {c : Comparison} {e : Expr} (h : c.Compiled e) :
    ((⟨keys, .standard⟩ : Env).eval e context).Means
      ((c.outcome keys context).map fun b => some (.bool b)) := by
  obtain ⟨key, hkey, rfl⟩ := h
  rw [compare, Env.eval, evalCall_compare hkey]
  have hmeans := means_tick_bind
    ((means_ofOutcome ((c.outcome keys context).map Value.bool)).map some)
  cases houtcome : c.outcome keys context <;> rw [houtcome] at hmeans <;> exact hmeans

theorem means_evalAny {es : List Expr} (h : List.Forall₂ Comparison.Compiled cs es) :
    ((⟨keys, .standard⟩ : Env).evalAny es context).Means (decideRow keys context cs) := by
  induction h with
  | nil =>
    rw [Env.evalAny]
    exact means_pure false
  | cons hfirst hrest ih =>
    rw [Env.evalAny, decideRow, Outcome.upTo]
    exact (decides_of_means (means_compiled hfirst)).branch (means_pure true) ih

theorem means_entry {e : Expr} (h : Compiled cs e) :
    ((⟨keys, .standard⟩ : Env).eval e context).Means
      ((decideRow keys context cs).map fun b => some (.bool b)) := by
  cases h with
  | single h =>
    rw [decideRow, Outcome.upTo_singleton]
    exact means_compiled h
  | several h =>
    rw [Env.eval]
    exact means_tick_bind ((means_evalAny h).map _)

theorem means_evalAll {es : List Expr} (h : List.Forall₂ Compiled entries es) :
    ((⟨keys, .standard⟩ : Env).evalAll es context).Means (decideRows keys context entries) := by
  induction h with
  | nil =>
    rw [Env.evalAll]
    exact means_pure true
  | @cons cs e entries es hfirst hrest ih =>
    have hstep : decideRows keys context (cs :: entries) =
        (decideRow keys context cs).bind fun held =>
          if held then decideRows keys context entries else .ok false := by
      rw [decideRows, Outcome.upTo]
      refine congrArg _ (funext fun held => ?_)
      cases held <;> rfl
    rw [Env.evalAll, hstep]
    exact (decides_of_means (means_entry hfirst)).branch ih (means_pure false)

end Evaluation

/-- **A condition object asks every entry for some literal.** What an accepted condition object is
    parsed into evaluates, under the standard filters, to the truth value that its comparisons
    decide, or to the error of the one that fails first among those that are reached. -/
theorem verdict_of_yields {path : DocPath} {fields : List (String × Json)} {e : Expr}
    (h : (predicate path (.object fields)).Yields e) (keys : Resolver) (context : Context) :
    (∀ cs ∈ rows fields, ∀ c ∈ cs, (Key.parse? c.name).isSome) ∧
    ∃ decision, Verdict keys context (rows fields) decision ∧
      ((⟨keys, .standard⟩ : Env).eval e context).Means
        (decision.map fun b => some (.bool b)) := by
  obtain ⟨es, hes, hshape⟩ := compiled_of_object h
  have hkeys := ((List.forall₂_and_left _ _).mp (hes.imp fun _ _ hcs => ⟨hcs.isSome_key, hcs⟩)).1
  refine ⟨hkeys, decideRows keys context (rows fields), verdict_decideRows, ?_⟩
  obtain rfl | ⟨-, rfl⟩ := hshape
  · obtain ⟨cs, rest, hcs, hrest, hrows⟩ := List.forall₂_cons_right_iff.mp hes
    obtain rfl := List.forall₂_nil_right_iff.mp hrest
    rw [hrows, decideRows, Outcome.upTo_singleton]
    exact means_entry hcs
  · rw [Env.eval]
    exact Metered.means_tick_bind ((means_evalAll hes).map _)

/-- Literals that look like a key and like a marker, under keys that own the first one. -/
theorem verdict_of_yields_key_literal :
    let marker := "$\x7bx\x7d|"
    let fields : List (String × Json) :=
      [("StringEquals", .object [("user:name", .array [.text "a:b", .text marker])]),
        ("StringNotEquals", .object [("user:name", .text "a:b")])]
    let e : Expr := .all
      [.any [compare ⟨"user", "name"⟩ "StringEquals" "a:b",
          compare ⟨"user", "name"⟩ "StringEquals" marker],
        compare ⟨"user", "name"⟩ "StringNotEquals" "a:b"]
    let keys := Resolver.ofHandlers
      [(⟨"user", "name"⟩, Handler.const (.text marker)), (⟨"a", "b"⟩, Handler.const (.text marker))]
    (predicate .root (.object fields)).Yields e ∧ keys.owns ⟨"a", "b"⟩ = true ∧
      ((⟨keys, .standard⟩ : Env).eval e .empty).Means (.ok (some (.bool true))) := by
  intro marker fields e keys
  have hparse : (predicate .root (.object fields)).Yields e :=
    ⟨.default, 0, ⟨Report.withLimit 20, false⟩, _, rfl⟩
  have hrows : rows fields = [[⟨"StringEquals", "user:name", .text "a:b"⟩,
      ⟨"StringEquals", "user:name", .text marker⟩],
    [⟨"StringNotEquals", "user:name", .text "a:b"⟩]] := rfl
  obtain ⟨-, decision, hverdict, hmeans⟩ := verdict_of_yields hparse keys .empty
  have hsecond : (⟨"StringEquals", "user:name", .text marker⟩ : Comparison).outcome keys .empty =
    .ok true := by decide +kernel
  have hthird : (⟨"StringNotEquals", "user:name", .text "a:b"⟩ : Comparison).outcome keys .empty =
    .ok true := by decide +kernel
  have hfirst : (⟨"StringEquals", "user:name", .text "a:b"⟩ : Comparison).outcome keys .empty =
    .ok false := by decide +kernel
  obtain ⟨b, hdecision, hb⟩ := hverdict.total (by
    rw [hrows]
    simp [hfirst, hsecond, hthird])
  have htrue : b = true := hb.mpr (by
    rw [hrows]
    simp [Comparison.satisfied_iff, hfirst, hsecond, hthird])
  rw [hdecision, htrue] at hmeans
  exact ⟨hparse, by decide +kernel, hmeans⟩

end Condition

end Stencil
