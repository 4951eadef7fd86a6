import Stencil.Proofs.Dictionary
import Stencil.Proofs.Document.Parsing
import Stencil.Proofs.Evaluation.InOrder

/-!
# What a document means

A document is parsed into an expression, and the expression is evaluated. Its directives can also
be read as they stand, without any expression between. This file fixes

* this direct reading: when a condition holds (`Env.holds`), and what a document means in a context
  (`Env.interpret`), directive by directive;
* that it gives texts and calls the values that the evaluation gives them
  (`Env.interpretText_eq`);
* the outcome that a computation without a limit has, whatever was counted before
  (`Metered.Means`);
* `Env.means_interpret`: the expression of a document has the outcome that the document means.

The reading takes no step of the evaluation: it binds the element of a repetition in a frame that it
writes down, and puts a mapping together from all its pairs at once, where the evaluation inserts
one after the other. What the two have in common is what a text is read as, what a key resolves to,
what filters do, what a value is shown as and whether it is truthy.

The reading is total. Where it meets what no parse accepts, it says nothing of interest.
-/

namespace Stencil

/-! ## 1. Texts and conditions -/

section Conditions

variable (env : Env) (context : Context)

/-- The value of a call: what the key resolves to, behind the filters. -/
def Env.interpretCall (c : Call) : Outcome Value :=
  (env.keys.resolve c.key context).bind fun v =>
    env.filters.applyAll ⟨env.keys, context⟩ c.filters v

/-- What a part of a text is shown as. -/
def Env.shown : Piece → Outcome String
  | .text s => .ok s
  | .call c => (env.interpretCall context c).map Value.display

/-- The value of a text: a marker that is the whole text keeps the type of its value, all other
    markers are shown. -/
def Env.interpretText (s : String) : Outcome Value :=
  match Template.read s .root with
  | .ok (.interpolated [.call c]) => env.interpretCall context c
  | .ok (.interpolated pieces) =>
    (pieces.mapM (env.shown context)).map fun texts => .text (String.join texts)
  | _ => .ok (.text s)

/-- Does a key compare with a literal? -/
def Env.compares (key : Key) (operator : String) (literal : Json) : Outcome Bool :=
  let text := (Value.ofJson literal).display
  (env.interpretCall context ⟨key, [⟨"cond", [operator, text]⟩]⟩).map Value.isTruthy

/-- Does a key compare with one of the literals? Those behind it are not looked at. -/
def Env.comparesSome (key : Key) (operator : String) : List Json → Outcome Bool
  | [] => .ok false
  | literal :: rest =>
    (env.compares context key operator literal).bind fun held =>
      if held then .ok true else comparesSome key operator rest

/-- Does an entry under an operator hold? -/
def Env.entryHolds (operator name : String) (tree : Json) : Outcome Bool :=
  match Key.parse? name with
  | none => .ok false
  | some key =>
    match tree with
    | .array literals => env.comparesSome context key operator literals
    | literal => env.compares context key operator literal

/-- Do all entries under an operator hold? Those behind one that does not are not looked at. -/
def Env.entriesHold (operator : String) : List (String × Json) → Outcome Bool
  | [] => .ok true
  | (name, tree) :: rest =>
    (env.entryHolds context operator name tree).bind fun held =>
      if held then entriesHold operator rest else .ok false

/-- Do all entries of a condition object hold? -/
def Env.operatorsHold : List (String × Json) → Outcome Bool
  | [] => .ok true
  | (operator, .object entries) :: rest =>
    (env.entriesHold context operator entries).bind fun held =>
      if held then operatorsHold rest else .ok false
  | _ :: rest => operatorsHold rest

/-- Does what stands under `@if` hold? -/
def Env.holds : Json → Outcome Bool
  | .text s => (env.interpretText context s).map Value.isTruthy
  | .bool b => .ok b
  | .object fields => env.operatorsHold context fields
  | _ => .ok false

/-- Is an object there? It is, unless it has an `@if` that does not hold. -/
def Env.guardHolds (fields : List (String × Json)) : Outcome Bool :=
  match Json.field? fields "@if" with
  | none => .ok true
  | some tree => env.holds context tree

end Conditions

/-! ## 2. Documents -/

/-- The clauses under `@when`. -/
def Json.clauses : Json → List Json
  | .array items => items
  | _ => []

/-- The branches under `@container`: a sequence of them, or a single one. -/
def Json.branches : Json → List Json
  | .array items => items
  | tree => [tree]

theorem Json.sizeOf_clauses_le (tree : Json) : sizeOf tree.clauses ≤ sizeOf tree := by
  cases tree <;> simp [clauses]

theorem Json.sizeOf_branches_le (tree : Json) : sizeOf tree.branches ≤ sizeOf tree + 2 := by
  cases tree <;> simp [branches] <;> omega

theorem Json.sizeOf_field?_lt {fields : List (String × Json)} {name : String} {tree : Json}
    (h : field? fields name = some tree) : sizeOf tree < sizeOf fields := by
  have hmem := List.sizeOf_lt_of_mem (mem_of_field? h)
  simp only [Prod.mk.sizeOf_spec] at hmem
  omega

/-- The context of the body for an element of a repetition: what is bound outside, behind a frame in
    which `repeat` tells the element and where it stands. -/
def Context.atElement (c : Context) (item : Value) (i count : Nat) : Context :=
  ⟨[("repeat", .mapping
    [("item", item), ("index", .ofNat i), ("first", .bool (i = 0)), ("last", .bool (i + 1 = count)),
     ("odd", .bool (i % 2 = 1)), ("even", .bool (i % 2 = 0))])] :: c.frames⟩

mutual

/-- What a document means in a context: a value, or nothing. An object whose `@if` does not hold
    means nothing, and nothing else in it is looked at. -/
def Env.interpret (env : Env) (context : Context) : Json → Outcome (Option Value)
  | .null => .ok (some .null)
  | .bool b => .ok (some (.bool b))
  | .number n => .ok (some (.number (Value.numberOf n)))
  | .text s => (env.interpretText context s).map some
  | .array items => (env.interpretItems context items).map fun values => some (.sequence values)
  | .object fields =>
    (env.guardHolds context fields).bind fun held =>
      if held then env.interpretGuarded context fields else .ok none
termination_by tree => (sizeOf tree, 0)

/-- The values of the elements of a sequence; those that mean nothing are left out. -/
def Env.interpretItems (env : Env) (context : Context) : List Json → Outcome (List Value)
  | [] => .ok []
  | item :: rest =>
    (env.interpret context item).bind fun result =>
      (env.interpretItems context rest).map fun others => result.toList ++ others
termination_by items => (sizeOf items, 0)

/-- An object that is there: its body, or with `@repeat` the bodies for all elements of the source,
    each with its element bound. -/
def Env.interpretGuarded (env : Env) (context : Context) (fields : List (String × Json)) :
    Outcome (Option Value) :=
  match _h : Json.field? fields "@repeat" with
  | none => env.interpretBody context fields
  | some source =>
    (env.interpret context source).bind fun
      | some (.sequence items) =>
        (items.zipIdx.mapM fun (item, i) =>
          env.interpretBody (context.atElement item i items.length) fields).map fun results =>
            some (.sequence (List.reduceOption results))
      | other => .error (.notIterable (.source (other.getD .null).kind))
termination_by (sizeOf fields, 2)
decreasing_by
  · exact Prod.Lex.right _ (by omega)
  · exact Prod.Lex.left _ _ (Json.sizeOf_field?_lt _h)
  · exact Prod.Lex.right _ (by omega)

/-- The body of an object: what `@when` selects, else what stands under `@value`, else the mapping
    of its pairs. There a name stands where it first occurs, and for what it last stands for. -/
def Env.interpretBody (env : Env) (context : Context) (fields : List (String × Json)) :
    Outcome (Option Value) :=
  match _h : Json.field? fields "@when" with
  | some clauses => env.interpretClauses context clauses.clauses
  | none =>
    match _h : Json.field? fields "@value" with
    | some tree => env.interpret context tree
    | none => (env.interpretFields context fields).map fun pairs =>
        some (.mapping (Dictionary.survivors pairs))
termination_by (sizeOf fields, 1)
decreasing_by
  · have hfield := Json.sizeOf_field?_lt _h
    have hclauses := Json.sizeOf_clauses_le clauses
    exact Prod.Lex.left _ _ (by omega)
  · exact Prod.Lex.left _ _ (Json.sizeOf_field?_lt _h)
  · exact Prod.Lex.right _ (by omega)

/-- What the first clause that is there means; the clauses behind it are not looked at. -/
def Env.interpretClauses (env : Env) (context : Context) : List Json → Outcome (Option Value)
  | [] => .ok none
  | .object fields :: rest =>
    (env.guardHolds context fields).bind fun held =>
      if held then env.interpretGuarded context fields else env.interpretClauses context rest
  | _ :: rest => env.interpretClauses context rest
termination_by clauses => (sizeOf clauses, 0)

/-- The pairs of an object, in the order in which they are written: those of its ordinary fields and
    those of its containers. What means nothing has no pair. -/
def Env.interpretFields (env : Env) (context : Context) :
    List (String × Json) → Outcome (List (String × Value))
  | [] => .ok []
  | (name, tree) :: rest =>
    if name = "@container" then
      (env.interpretBranches context tree.branches).bind fun pairs =>
        (env.interpretFields context rest).map fun others => pairs ++ others
    else if name.toList.head? = some '@' then env.interpretFields context rest
    else
      (env.interpret context tree).bind fun result =>
        (env.interpretFields context rest).map fun others =>
          (result.toList.map fun v => (name, v)) ++ others
termination_by fields => (sizeOf fields, 0)
decreasing_by
  · have hbranches := Json.sizeOf_branches_le tree
    have hrest : 0 < sizeOf rest := by
      cases rest with
      | nil =>
        rw [List.nil.sizeOf_spec]
        omega
      | cons =>
        rw [List.cons.sizeOf_spec]
        omega
    refine Prod.Lex.left _ _ ?_
    simp only [List.cons.sizeOf_spec, Prod.mk.sizeOf_spec]
    omega
  all_goals decreasing_tactic

/-- The pairs of branches, one branch after the other; a branch that means something must mean a
    mapping. -/
def Env.interpretBranches (env : Env) (context : Context) :
    List Json → Outcome (List (String × Value))
  | [] => .ok []
  | branch :: rest =>
    (env.interpret context branch).bind fun
      | none => env.interpretBranches context rest
      | some (.mapping pairs) =>
        (env.interpretBranches context rest).map fun others => pairs ++ others
      | some v => .error (.typeMismatch (.branchNotMapping v.kind))
termination_by branches => (sizeOf branches, 0)

end

section Fields

variable {env : Env} {context : Context} {fields : List (String × Json)} {tree : Json}

theorem Env.guardHolds_of_none (h : Json.field? fields "@if" = none) :
    env.guardHolds context fields = .ok true := by
  rw [guardHolds, h]

theorem Env.guardHolds_of_some (h : Json.field? fields "@if" = some tree) :
    env.guardHolds context fields = env.holds context tree := by
  rw [guardHolds, h]

theorem Env.interpretGuarded_of_none (h : Json.field? fields "@repeat" = none) :
    env.interpretGuarded context fields = env.interpretBody context fields := by
  rw [interpretGuarded]
  split
  · rfl
  · next hsome => rw [h] at hsome; cases hsome

theorem Env.interpretGuarded_of_some (h : Json.field? fields "@repeat" = some tree) :
    env.interpretGuarded context fields = (env.interpret context tree).bind fun
      | some (.sequence items) =>
        (items.zipIdx.mapM fun (item, i) =>
          env.interpretBody (context.atElement item i items.length) fields).map fun results =>
            some (.sequence (List.reduceOption results))
      | other => .error (.notIterable (.source (other.getD .null).kind)) := by
  rw [interpretGuarded]
  split
  · next hnone => rw [h] at hnone; cases hnone
  · next hsome => rw [h] at hsome; cases hsome; rfl

theorem Env.interpretBody_of_clauses (h : Json.field? fields "@when" = some tree) :
    env.interpretBody context fields = env.interpretClauses context tree.clauses := by
  rw [interpretBody]
  split
  · next hsome => rw [h] at hsome; cases hsome; rfl
  · next hnone => rw [h] at hnone; cases hnone

theorem Env.interpretBody_of_value (hnone : Json.field? fields "@when" = none)
    (h : Json.field? fields "@value" = some tree) :
    env.interpretBody context fields = env.interpret context tree := by
  rw [interpretBody]
  split
  · next hsome => rw [hnone] at hsome; cases hsome
  · split
    · next hsome => rw [h] at hsome; cases hsome; rfl
    · next hvalue => rw [h] at hvalue; cases hvalue

theorem Env.interpretBody_of_none (hnone : Json.field? fields "@when" = none)
    (hnone' : Json.field? fields "@value" = none) :
    env.interpretBody context fields = (env.interpretFields context fields).map fun pairs =>
      some (.mapping (Dictionary.survivors pairs)) := by
  rw [interpretBody]
  split
  · next hsome => rw [hnone] at hsome; cases hsome
  · split
    · next hsome => rw [hnone'] at hsome; cases hsome
    · rfl

end Fields

/-- What a whole document means; it must mean something. -/
def Env.interpretDocument (env : Env) (context : Context) (document : Json) : Outcome Value :=
  (env.interpret context document).bind fun
    | some v => .ok v
    | none => .error .noMatchingClause

/-! ## 3. Outcomes -/

namespace Outcome

theorem map_bind {α β γ : Type} (o : Outcome α) (f : α → Outcome β) (g : β → γ) :
    (o.bind f).map g = o.bind fun a => (f a).map g := by
  cases o <;> rfl

theorem bind_map {α β γ : Type} (o : Outcome α) (f : α → β) (g : β → Outcome γ) :
    (o.map f).bind g = o.bind fun a => g (f a) := by
  cases o <;> rfl

theorem map_map {α β γ : Type} (o : Outcome α) (f : α → β) (g : β → γ) :
    (o.map f).map g = o.map fun a => g (f a) := by
  cases o <;> rfl

/-- Pairs can be inserted behind others, or together with them. -/
theorem map_extend_append (o : Outcome (List (String × Value)))
    (found pairs : List (String × Value)) :
    (o.map fun others => pairs ++ others).map (Dictionary.extend found) =
      o.map (Dictionary.extend (Dictionary.extend found pairs)) := by
  rw [map_map]
  exact congrArg o.map (funext fun others => Dictionary.extend_append found pairs others)

/-- Absent results can be left out one after the other, or all at once. -/
theorem reduceOption_cons {α : Type} (o : Outcome (Option α)) (others : Outcome (List (Option α))) :
    (o.bind fun result => others.map fun results => result :: results).map List.reduceOption =
      o.bind fun result => (others.map List.reduceOption).map fun vs => result.toList ++ vs := by
  rcases o with error | result
  · rfl
  · rcases others with error | results
    · rfl
    · cases result <;> rfl

end Outcome

/-! ## 4. Calls and texts -/

namespace Env

variable (env : Env) (context : Context)

theorem interpretCall_eq (c : Call) : env.interpretCall context c = env.evalCall context c := by
  rw [interpretCall, evalCall]
  cases env.keys.resolve c.key context <;> rfl

/-- **Parts are shown one after the other**, and the first error counts. -/
theorem evalPieces_eq_mapM (pieces : List Piece) :
    env.evalPieces context pieces = (pieces.mapM (env.shown context)).map String.join := by
  induction pieces with
  | nil => rfl
  | cons piece rest ih =>
    have hjoin (s : String) : ((rest.mapM (env.shown context)).map String.join).map (s ++ ·) =
        ((rest.mapM (env.shown context)).map fun texts => s :: texts).map String.join := by
      simp only [Outcome.map_map, String.join_cons]
    rw [List.mapM_cons]
    cases piece with
    | text s =>
      rw [evalPieces, ih]
      exact hjoin s
    | call c =>
      rw [evalPieces, ih, shown, interpretCall_eq]
      cases env.evalCall context c with
      | error error => rfl
      | ok v => exact hjoin v.display

/-- **A text has the value of its template**, or is its own value. -/
theorem interpretText_eq (s : String) : env.interpretText context s =
    match Template.read s .root with
    | .ok (.interpolated pieces) => env.evalTemplate context pieces
    | _ => .ok (.text s) := by
  have hspliced (pieces : List Piece) :
      ((pieces.mapM (env.shown context)).map fun texts => Value.text (String.join texts)) =
        (env.evalPieces context pieces).map .text := by
    rw [evalPieces_eq_mapM, Outcome.map_map]
  rw [interpretText]
  cases Template.read s .root with
  | error d => rfl
  | ok e =>
    cases e with
    | interpolated pieces =>
      match pieces with
      | [.call c] => exact env.interpretCall_eq context c
      | [] => exact hspliced []
      | .text t :: rest => exact hspliced (.text t :: rest)
      | .call c :: second :: rest => exact hspliced (.call c :: second :: rest)
    | _ => rfl

end Env

/-! ## 5. Outcomes without a limit -/

namespace Metered

variable {α β : Type}

/-- The outcome of a computation without a limit, whatever was counted before. -/
def Means (m : Metered α) (o : Outcome α) : Prop :=
  ∀ gas, (m none gas).1 = o

theorem means_ofOutcome (o : Outcome α) : (ofOutcome o).Means o :=
  fun _ => rfl

theorem means_pure (a : α) : (pure a).Means (.ok a) :=
  means_ofOutcome (.ok a)

theorem Means.bind {m : Metered α} {o : Outcome α} {f : α → Metered β} {g : α → Outcome β}
    (hm : m.Means o) (hf : ∀ a, o = .ok a → (f a).Means (g a)) : (m.bind f).Means (o.bind g) := by
  intro gas
  have hfirst := hm gas
  unfold Metered.bind
  rcases hrun : m none gas with ⟨error | a, between⟩
  · rw [hrun] at hfirst
    rw [← hfirst]
    rfl
  · rw [hrun] at hfirst
    rw [← hfirst]
    exact hf a hfirst.symm between

theorem Means.map {m : Metered α} {o : Outcome α} (hm : m.Means o) (f : α → β) :
    (m.map f).Means (o.map f) := by
  have hbind := hm.bind fun a _ => means_pure (f a)
  cases o <;> exact hbind

/-- A tick changes no outcome. -/
theorem means_tick_bind {m : Metered α} {o : Outcome α} (hm : m.Means o) :
    (tick.bind fun _ => m).Means o :=
  fun gas => hm (gas + 1)

/-- The bodies for the elements of a repetition mean what they do in the contexts of the elements;
    absent ones are left out. -/
theorem means_forEach {body : Context → Metered (Option Value)}
    {meaning : Context → Outcome (Option Value)}
    (h : ∀ context, (body context).Means (meaning context)) (context : Context) (count : Nat)
    (items : List Value) (i : Nat) :
    (forEach body context count i items).Means
      (((items.zipIdx i).mapM fun (item, k) => meaning (context.atElement item k count)).map
        List.reduceOption) := by
  induction items generalizing i with
  | nil => exact means_pure []
  | cons item rest ih =>
    have hfirst : (body (context.forElement item i count)).Means
        (meaning (context.atElement item i count)) := h (context.atElement item i count)
    have hall := hfirst.bind fun result _ => (ih (i + 1)).map fun vs => result.toList ++ vs
    rw [← Outcome.reduceOption_cons] at hall
    rw [forEach, List.zipIdx_cons, List.mapM_cons]
    exact hall

end Metered

/-! ## 6. Conditions -/

namespace Metered

/-- What the value of a predicate decides: an absent value counts as null. -/
def Decides (m : Metered (Option Value)) (o : Outcome Bool) : Prop :=
  (m.map fun held => (held.getD .null).isTruthy).Means o

theorem Means.decides {m : Metered (Option Value)} {r : Outcome Value} (h : m.Means (r.map some)) :
    m.Decides (r.map Value.isTruthy) := by
  have hmap := h.map fun held => (held.getD .null).isTruthy
  cases r <;> exact hmap

/-- A truth value as the value of a predicate. -/
theorem Means.decides_bool {m : Metered Bool} {o : Outcome Bool} (h : m.Means o) :
    (tick.bind fun _ => m.map fun b => some (.bool b)).Decides o := by
  have hmap := (means_tick_bind (h.map fun b => some (Value.bool b))).map fun held =>
    (held.getD .null).isTruthy
  cases o <;> exact hmap

/-- A predicate, and what is done if it holds and if it does not. -/
theorem Decides.branch {β : Type} {m : Metered (Option Value)} {o : Outcome Bool} (h : m.Decides o)
    {yes no : Metered β} {y n : Outcome β} (hyes : yes.Means y) (hno : no.Means n) :
    (m.bind fun held => if (held.getD .null).isTruthy then yes else no).Means
      (o.bind fun held => if held then y else n) := by
  intro gas
  have hdecides := h gas
  unfold Metered.map Metered.bind at hdecides
  unfold Metered.bind
  rcases hrun : m none gas with ⟨error | held, between⟩
  · rw [hrun] at hdecides
    rw [← hdecides]
    rfl
  · rw [hrun] at hdecides
    rw [← hdecides]
    show _ = if (held.getD .null).isTruthy then y else n
    cases hheld : (held.getD .null).isTruthy with
    | true => simpa [hheld] using hyes between
    | false => simpa [hheld] using hno between

end Metered

/-- The expression of a text costs one unit and has the value of the text. -/
theorem Env.eval_of_read {s : String} {path : DocPath} {e : Expr}
    (h : Template.read s path = .ok e) (env : Env) (context : Context) :
    env.eval e context = Metered.tick.bind fun _ =>
      (Metered.ofOutcome (env.interpretText context s)).map some := by
  have hread := Template.read_eq_ok_at h .root
  rw [interpretText_eq, hread]
  cases hopening : Template.hasOpening s.toList with
  | false =>
    rw [Template.read_of_not_hasOpening _ hopening] at hread
    obtain rfl := Except.ok.inj hread
    rw [Expr.text, eval]
    rfl
  | true =>
    obtain ⟨parts, pieces, -, -, -, rfl⟩ := (Template.read_eq_ok_iff hopening).mp hread
    rw [eval]

namespace Condition

open Metered Parse

variable {env : Env} {context : Context}

/-- The expression of a text has the value of the text. -/
theorem means_text {s : String} {path : DocPath} {e : Expr} (h : (Parse.text s path).Yields e) :
    (env.eval e context).Means ((env.interpretText context s).map some) := by
  rw [Env.eval_of_read h.of_text]
  exact means_tick_bind ((means_ofOutcome _).map some)

theorem eq_of_yields_literal {path : DocPath} {tree : Json} {s : String}
    (h : (literal path tree).Yields s) : s = (Value.ofJson tree).display := by
  cases tree with
  | array => exact absurd h (not_yields_refuse _ _)
  | object => exact absurd h (not_yields_refuse _ _)
  | _ => exact h.of_pure.symm

theorem decides_compare (key : Key) (operator : String) (tree : Json) :
    (env.eval (compare key operator (Value.ofJson tree).display) context).Decides
      (env.compares context key operator tree) := by
  rw [compare, Env.eval, Env.compares, Env.interpretCall_eq]
  exact Means.decides (means_tick_bind ((means_ofOutcome _).map some))

theorem means_alternatives {key : Key} {operator : String} {path : DocPath} {i : Nat}
    {trees : List Json} {es : List Expr} (h : (alternatives key operator path i trees).Yields es) :
    (env.evalAny es context).Means (env.comparesSome context key operator trees) := by
  induction trees generalizing i es with
  | nil =>
    obtain rfl := h.of_pure
    rw [Env.evalAny]
    exact means_pure false
  | cons tree rest ih =>
    obtain ⟨⟨text, others⟩, hboth, rfl⟩ := Yields.of_map h
    obtain ⟨htext, hothers⟩ := hboth.of_both
    obtain rfl := eq_of_yields_literal htext
    rw [Env.evalAny]
    exact (decides_compare key operator tree).branch (means_pure true) (ih hothers)

theorem decides_entry {operator name : String} {path : DocPath} {tree : Json} {e : Expr}
    (h : (entry operator path name tree).Yields e) :
    (env.eval e context).Decides (env.entryHolds context operator name tree) := by
  unfold entry at h
  unfold Env.entryHolds
  cases hkey : Key.parse? name with
  | none =>
    rw [hkey] at h
    exact absurd h (not_yields_refuse _ _)
  | some key =>
    rw [hkey] at h
    cases tree with
    | array literals =>
      obtain ⟨es, hes, rfl⟩ := Yields.of_map h
      rw [Env.eval]
      exact (means_alternatives hes).decides_bool
    | _ =>
      obtain ⟨text, htext, rfl⟩ := Yields.of_map h
      rw [eq_of_yields_literal htext]
      exact decides_compare key operator _

theorem means_entries {operator : String} {path : DocPath} {fields : List (String × Json)}
    {es : List Expr} (h : (entries operator path fields).Yields es) :
    (env.evalAll es context).Means (env.entriesHold context operator fields) := by
  induction fields generalizing es with
  | nil =>
    obtain rfl := h.of_pure
    rw [Env.evalAll]
    exact means_pure true
  | cons field rest ih =>
    obtain ⟨name, tree⟩ := field
    obtain ⟨⟨first, others⟩, hboth, rfl⟩ := Yields.of_map h
    obtain ⟨hfirst, hothers⟩ := hboth.of_both
    rw [Env.evalAll]
    exact (decides_entry hfirst).branch (ih hothers) (means_pure false)

/-- Two lists of predicates, one after the other. -/
theorem evalAll_append (first others : List Expr) :
    env.evalAll (first ++ others) context = (env.evalAll first context).bind fun held =>
      if held then env.evalAll others context else .pure false := by
  induction first with
  | nil => rw [Env.evalAll, Metered.pure_bind, List.nil_append, if_pos rfl]
  | cons e rest ih =>
    rw [List.cons_append, Env.evalAll, Env.evalAll, Metered.bind_assoc]
    refine congrArg _ (funext fun held => ?_)
    cases (held.getD .null).isTruthy
    · rfl
    · exact ih

theorem means_operators {path : DocPath} {fields : List (String × Json)}
    {es : List Expr} (h : (operators path fields).Yields es) :
    (env.evalAll es context).Means (env.operatorsHold context fields) := by
  induction fields generalizing es with
  | nil =>
    obtain rfl := h.of_pure
    rw [Env.evalAll]
    exact means_pure true
  | cons field rest ih =>
    obtain ⟨operator, tree⟩ := field
    cases tree with
    | object inner =>
      obtain ⟨⟨first, others⟩, hboth, rfl⟩ := Yields.of_map h
      obtain ⟨hfirst, hothers⟩ := hboth.of_both
      rw [evalAll_append]
      refine (means_entries hfirst).bind fun held _ => ?_
      cases held
      · exact means_pure false
      · exact ih hothers
    | _ => exact ih (Yields.of_andThen h).2

/-- The conjunction of comparisons decides what all of them do. -/
theorem decides_conjunction {path : DocPath} {es : List Expr} {e : Expr} {o : Outcome Bool}
    (h : (conjunction path es).Yields e) (hall : (env.evalAll es context).Means o) :
    (env.eval e context).Decides o := by
  cases es with
  | nil => exact absurd h (not_yields_refuse _ _)
  | cons first rest =>
    cases rest with
    | nil =>
      obtain rfl := Yields.of_pure h
      have hsame : env.evalAll [first] context =
          (env.eval first context).map fun held => (held.getD .null).isTruthy := by
        rw [Env.evalAll, Metered.map, Env.evalAll]
        refine congrArg _ (funext fun held => ?_)
        cases (held.getD .null).isTruthy <;> rfl
      rwa [hsame] at hall
    | cons second more =>
      obtain rfl := Yields.of_pure h
      rw [Env.eval]
      exact hall.decides_bool

theorem decides_object {path : DocPath} {fields : List (String × Json)} {e : Expr}
    (h : (object path fields).Yields e) :
    (env.eval e context).Decides (env.operatorsHold context fields) := by
  obtain ⟨options, depth, found, after, heq⟩ := h
  unfold object at heq
  rcases hrun : operators path fields options depth found with ⟨result, between⟩
  rw [hrun] at heq
  cases result with
  | none => cases heq
  | some es =>
    have hes : (operators path fields).Yields es := ⟨options, depth, found, between, hrun⟩
    exact decides_conjunction ⟨options, depth, between, after, heq⟩ (means_operators hes)

/-- **The expression of a predicate** decides whether the condition holds. -/
theorem decides_predicate {path : DocPath} {tree : Json} {e : Expr}
    (h : (predicate path tree).Yields e) :
    (env.eval e context).Decides (env.holds context tree) := by
  cases tree with
  | text s => exact (means_text h).decides
  | bool b =>
    obtain rfl := Yields.of_pure h
    rw [Env.eval]
    exact (means_tick_bind (means_pure _)).map _
  | object fields => exact decides_object h
  | _ => exact absurd h (not_yields_refuse _ _)

end Condition

/-! ## 7. Objects -/

namespace Env

open Metered Parse Outline

variable {env : Env}

/-- A clause of an object: its result, if the object is there. -/
theorem means_clause {path : DocPath} {fields : List (String × Json)} {guard : Option Expr}
    (h : Block.Guard path fields guard) {result : Expr} {rest : List Clause} {context : Context}
    {y n : Outcome (Option Value)} (hyes : (env.eval result context).Means y)
    (hno : (env.evalClauses rest context).Means n) :
    (env.evalClauses (.mk guard result :: rest) context).Means
      ((env.guardHolds context fields).bind fun held => if held then y else n) := by
  cases h with
  | none hfield =>
    rw [evalClauses, guardHolds_of_none hfield]
    exact hyes
  | some hfield hpredicate =>
    rw [evalClauses, guardHolds_of_some hfield]
    exact (Condition.decides_predicate hpredicate).branch hyes hno

/-- An expression under its guard: absent, if the object is not there. -/
theorem means_guarded {path : DocPath} {fields : List (String × Json)} {guard : Option Expr}
    (h : Block.Guard path fields guard) {e : Expr} {context : Context} {y : Outcome (Option Value)}
    (hbody : (env.eval e context).Means y) :
    (env.eval (Expr.guarded (guard, e)) context).Means
      ((env.guardHolds context fields).bind fun held => if held then y else .ok none) := by
  have hno : (env.evalClauses [] context).Means (.ok none) := by
    rw [evalClauses]
    exact means_pure none
  have hclause := means_clause h hbody hno
  cases guard with
  | none => rwa [evalClauses] at hclause
  | some p =>
    rw [Expr.guarded, eval]
    exact means_tick_bind hclause

/-- Two lists of entries, one after the other. -/
theorem evalEntries_append (first others : List Entry) (context : Context)
    (found : List (String × Value)) :
    env.evalEntries (first ++ others) context found =
      (env.evalEntries first context found).bind fun merged =>
        env.evalEntries others context merged := by
  induction first generalizing found with
  | nil => rw [evalEntries, pure_bind, List.nil_append]
  | cons entry rest ih =>
    rw [List.cons_append]
    cases entry with
    | field name e =>
      rw [evalEntries, evalEntries, bind_assoc]
      exact congrArg _ (funext fun result => ih _)
    | merge e =>
      rw [evalEntries, evalEntries, bind_assoc]
      refine congrArg _ (funext fun result => ?_)
      rw [bind_assoc]
      exact congrArg _ (funext fun merged => ih _)

/-- A branch in front of others. -/
theorem means_branch {branch : Expr} {others : List Expr} {tree : Json} {rest : List Json}
    {context : Context} (hbranch : (env.eval branch context).Means (env.interpret context tree))
    (hothers : ∀ found, (env.evalEntries (others.map .merge) context found).Means
      ((env.interpretBranches context rest).map (Dictionary.extend found)))
    (found : List (String × Value)) :
    (env.evalEntries ((branch :: others).map .merge) context found).Means
      ((env.interpretBranches context (tree :: rest)).map (Dictionary.extend found)) := by
  rw [List.map_cons, evalEntries, interpretBranches, Outcome.map_bind]
  refine hbranch.bind fun result _ => ?_
  cases result with
  | none => exact hothers found
  | some v =>
    cases v with
    | mapping pairs =>
      rw [Outcome.map_extend_append]
      exact hothers (Dictionary.extend found pairs)
    | _ => exact fun _ => rfl

/-- A repetition, with what its source and its body mean. -/
theorem means_repetition {source body : Expr} {context : Context} {o : Outcome (Option Value)}
    {meaning : Context → Outcome (Option Value)} (hsource : (env.eval source context).Means o)
    (hbody : ∀ inner, (env.eval body inner).Means (meaning inner)) :
    (env.eval (.repetition source body) context).Means (o.bind fun
      | some (.sequence items) =>
        (items.zipIdx.mapM fun (item, i) =>
          meaning (context.atElement item i items.length)).map fun results =>
            some (.sequence (List.reduceOption results))
      | other => .error (.notIterable (.source (other.getD .null).kind))) := by
  rw [eval]
  refine means_tick_bind (hsource.bind fun result _ => ?_)
  cases result with
  | none => exact fun _ => rfl
  | some v =>
    cases v with
    | sequence items =>
      have hall := (means_forEach hbody context items.length items 0).map fun values =>
        some (Value.sequence values)
      rw [Outcome.map_map] at hall
      exact hall
    | _ => exact fun _ => rfl

/-! ## 8. Documents -/

mutual

/-- **The expression of a document** has the outcome that the document means. -/
theorem means_interpret {path : DocPath} {tree : Json} {e : Expr}
    (h : (Outline.parse path (ofJson tree)).Yields e) (context : Context) :
    (env.eval e context).Means (env.interpret context tree) := by
  match tree, h with
  | .null, h =>
    rw [ofJson, Outline.parse] at h
    obtain rfl := h.of_nested.of_pure
    rw [eval, interpret]
    exact means_tick_bind (means_pure _)
  | .bool b, h =>
    rw [ofJson, Outline.parse] at h
    obtain rfl := h.of_nested.of_pure
    rw [eval, interpret]
    exact means_tick_bind (means_pure _)
  | .number n, h =>
    rw [ofJson, Outline.parse] at h
    obtain rfl := h.of_nested.of_pure
    rw [eval, interpret]
    exact means_tick_bind (means_pure _)
  | .text s, h =>
    rw [ofJson, Outline.parse] at h
    rw [interpret]
    exact Condition.means_text h.of_nested
  | .array items, h =>
    rw [ofJson, Outline.parse] at h
    obtain ⟨es, hes, rfl⟩ := h.of_nested.of_map
    rw [eval, interpret]
    exact means_tick_bind ((means_interpretItems hes context).map _)
  | .object fields, h =>
    rw [ofJson, Outline.parse] at h
    obtain ⟨⟨guard, body⟩, hblock, rfl⟩ := h.of_nested.of_map
    obtain ⟨hguard, hbody⟩ := Block.of_yields hblock
    rw [interpret]
    exact means_guarded hguard (means_interpretGuarded hbody context)
termination_by (sizeOf tree, 0)

theorem means_interpretItems {path : DocPath} {i : Nat} {items : List Json} {es : List Expr}
    (h : (parseItems path i (ofJsonItems items)).Yields es) (context : Context) :
    (env.evalItems es context).Means (env.interpretItems context items) := by
  match items, h with
  | [], h =>
    rw [ofJsonItems, parseItems] at h
    obtain rfl := h.of_pure
    rw [evalItems, interpretItems]
    exact means_pure []
  | item :: rest, h =>
    rw [ofJsonItems, parseItems] at h
    obtain ⟨⟨first, others⟩, hboth, rfl⟩ := h.of_map
    obtain ⟨hfirst, hothers⟩ := hboth.of_both
    rw [evalItems, interpretItems]
    exact (means_interpret hfirst context).bind fun result _ =>
      (means_interpretItems hothers context).map _
termination_by (sizeOf items, 0)

/-- An object that is there, with its repetition. -/
theorem means_interpretGuarded {path : DocPath} {fields : List (String × Json)} {e : Expr}
    (h : Block.Repeated path fields e) (context : Context) :
    (env.eval e context).Means (env.interpretGuarded context fields) := by
  cases h with
  | once hfield hbody =>
    rw [interpretGuarded_of_none hfield]
    exact means_interpretBody hbody context
  | @each tree s body hfield hsource hbody =>
    have hless := Json.sizeOf_field?_lt hfield
    rw [interpretGuarded_of_some hfield]
    exact means_repetition (means_interpret hsource context) (means_interpretBody hbody)
termination_by (sizeOf fields, 2)

/-- The body of an object. -/
theorem means_interpretBody {path : DocPath} {fields : List (String × Json)} {e : Expr}
    (h : Block.Body path fields e) (context : Context) :
    (env.eval e context).Means (env.interpretBody context fields) := by
  cases h with
  | @clauses tree e hfield hclauses =>
    have hless := Json.sizeOf_field?_lt hfield
    rw [interpretBody_of_clauses hfield]
    cases tree with
    | array items =>
      rw [ofJson, parseClauses] at hclauses
      obtain ⟨clauses, hparse, rfl⟩ := hclauses.of_map
      have hitems : sizeOf items < sizeOf fields := by
        simp only [Json.array.sizeOf_spec] at hless
        omega
      rw [eval]
      exact means_tick_bind (means_interpretClauses hparse context)
    | _ =>
      rw [ofJson, parseClauses] at hclauses
      exact absurd hclauses (not_yields_refuse _ _)
  | @value tree e hnone hfield hvalue =>
    have hless := Json.sizeOf_field?_lt hfield
    rw [interpretBody_of_value hnone hfield]
    exact means_interpret hvalue context
  | entries hnone hnone' hentries =>
    rw [eval, interpretBody_of_none hnone hnone']
    have hfields := (means_interpretFields hentries context []).map fun found =>
      some (Value.mapping found)
    have hpairs (pairs : List (String × Value)) :
        Dictionary.extend [] pairs = Dictionary.survivors pairs :=
      Dictionary.ofList_eq_survivors pairs
    simp only [Outcome.map_map, hpairs] at hfields
    exact means_tick_bind hfields
termination_by (sizeOf fields, 1)

/-- Clauses. Only objects can be clauses. -/
theorem means_interpretClauses {path : DocPath} {i : Nat} {items : List Json}
    {clauses : List Clause} (h : (parseClauseItems path i (ofJsonItems items)).Yields clauses)
    (context : Context) :
    (env.evalClauses clauses context).Means (env.interpretClauses context items) := by
  match items, h with
  | [], h =>
    rw [ofJsonItems, parseClauseItems] at h
    obtain rfl := h.of_pure
    rw [evalClauses, interpretClauses]
    exact means_pure none
  | .object fields :: rest, h =>
    rw [ofJsonItems, ofJson, parseClauseItems] at h
    obtain ⟨⟨⟨guard, result⟩, others⟩, hboth, rfl⟩ := h.of_map
    obtain ⟨hnested, hothers⟩ := hboth.of_both
    obtain ⟨hguard, hresult⟩ := Block.of_yields hnested.of_nested
    rw [interpretClauses]
    exact means_clause hguard (means_interpretGuarded hresult context)
      (means_interpretClauses hothers context)
  | .null :: rest, h | .bool _ :: rest, h | .number _ :: rest, h | .text _ :: rest, h
  | .array _ :: rest, h =>
    obtain ⟨⟨_, hrefuse⟩, -⟩ := Yields.of_andThen h
    exact absurd hrefuse (not_yields_refuse _ _)
termination_by (sizeOf items, 0)

/-- The fields and the branches of an object: their pairs, inserted into what was found before. -/
theorem means_interpretFields {path : DocPath} {fields : List (String × Json)} {es : List Entry}
    (h : (parseEntries path (entriesOf fields)).Yields es) (context : Context)
    (found : List (String × Value)) :
    (env.evalEntries es context found).Means
      ((env.interpretFields context fields).map (Dictionary.extend found)) := by
  match fields, h with
  | [], h =>
    rw [entriesOf, parseEntries] at h
    obtain rfl := h.of_pure
    rw [evalEntries, interpretFields]
    exact means_pure found
  | (name, tree) :: rest, h =>
    rw [entriesOf] at h
    by_cases hcontainer : name = "@container"
    · have hname : name = Directive.container := hcontainer
      rw [if_pos hname, parseEntries] at h
      obtain ⟨⟨branches, others⟩, hboth, rfl⟩ := h.of_map
      obtain ⟨hbranches, hothers⟩ := hboth.of_both
      have hall := (means_interpretBranches hbranches context found).bind fun merged _ =>
        means_interpretFields hothers context merged
      rw [evalEntries_append, interpretFields, if_pos hcontainer, Outcome.map_bind]
      simpa only [Outcome.bind_map, Outcome.map_extend_append] using hall
    · have hname : name ≠ Directive.container := hcontainer
      rw [if_neg hname] at h
      rw [interpretFields, if_neg hcontainer]
      by_cases hlooks : Directive.looksLike name = true
      · rw [if_pos hlooks] at h
        rw [if_pos (Directive.looksLike_iff.mp hlooks)]
        exact means_interpretFields h context found
      · rw [if_neg hlooks, parseEntries] at h
        rw [if_neg (mt Directive.looksLike_iff.mpr hlooks), Outcome.map_bind]
        obtain ⟨⟨first, others⟩, hboth, rfl⟩ := h.of_map
        obtain ⟨hfirst, hothers⟩ := hboth.of_both
        rw [evalEntries]
        refine (means_interpret hfirst context).bind fun result _ => ?_
        rw [Outcome.map_extend_append, withField_eq_extend]
        exact means_interpretFields hothers context _
termination_by (sizeOf fields, 0)

/-- What stands under `@container`. -/
theorem means_interpretBranches {path : DocPath} {tree : Json} {branches : List Expr}
    (h : (parseBranches path (ofJson tree)).Yields branches) (context : Context)
    (found : List (String × Value)) :
    (env.evalEntries (branches.map .merge) context found).Means
      ((env.interpretBranches context tree.branches).map (Dictionary.extend found)) := by
  match tree, h with
  | .object fields, h =>
    rw [ofJson, parseBranches] at h
    obtain ⟨branch, hbranch, rfl⟩ := h.of_map
    have hparse : (Outline.parse path (ofJson (.object fields))).Yields branch := by
      rw [ofJson, Outline.parse]
      exact hbranch
    refine means_branch (means_interpret hparse context) (fun merged => ?_) found
    rw [List.map_nil, evalEntries, interpretBranches]
    exact means_pure merged
  | .array items, h =>
    rw [ofJson, parseBranches] at h
    exact means_interpretBranchItems h context found
  | .null, h | .bool _, h | .number _, h | .text _, h =>
    exact absurd h (not_yields_refuse _ _)
termination_by (sizeOf tree, 1)

/-- The branches of a sequence. Only objects can be branches. -/
theorem means_interpretBranchItems {path : DocPath} {i : Nat} {items : List Json}
    {branches : List Expr} (h : (parseBranchItems path i (ofJsonItems items)).Yields branches)
    (context : Context) (found : List (String × Value)) :
    (env.evalEntries (branches.map .merge) context found).Means
      ((env.interpretBranches context items).map (Dictionary.extend found)) := by
  match items, h with
  | [], h =>
    rw [ofJsonItems, parseBranchItems] at h
    obtain rfl := h.of_pure
    rw [List.map_nil, evalEntries, interpretBranches]
    exact means_pure found
  | .object fields :: rest, h =>
    rw [ofJsonItems, ofJson, parseBranchItems] at h
    obtain ⟨⟨branch, others⟩, hboth, rfl⟩ := h.of_map
    obtain ⟨hbranch, hothers⟩ := hboth.of_both
    have hparse : (Outline.parse (path.index i) (ofJson (.object fields))).Yields branch := by
      rw [ofJson, Outline.parse]
      exact hbranch
    exact means_branch (means_interpret hparse context)
      (means_interpretBranchItems hothers context) found
  | .null :: rest, h | .bool _ :: rest, h | .number _ :: rest, h | .text _ :: rest, h
  | .array _ :: rest, h =>
    obtain ⟨⟨_, hrefuse⟩, -⟩ := Yields.of_andThen h
    exact absurd hrefuse (not_yields_refuse _ _)
termination_by (sizeOf items, 0)

end

/-- **Parsing and evaluating is reading the directives as they stand.** Whatever the limits of the
    parse are, the expression of a document evaluates, without a limit of gas, to the value that the
    document means, or fails with the same error. -/
theorem evaluate_eq_interpret {options : ParseOptions} {document : Json} {e : Expr}
    (h : (Parsed.ofDocument options document).expr = some e) (env : Env) (context : Context) :
    (env.evaluate none e context).1 = env.interpretDocument context document := by
  have hmeans : (env.evalDocument e context).Means (env.interpretDocument context document) := by
    refine (means_interpret (Parsed.yields_of_expr h) context).bind fun result _ => ?_
    cases result with
    | some v => exact means_pure v
    | none => exact means_ofOutcome (.error .noMatchingClause)
  exact hmeans 0

/-- A repetition whose elements select clauses, by a text and by a condition object, with a branch
    under a guard of its own. -/
theorem evaluate_eq_interpret_repeated_clauses :
    let document : Json := .object
      [("@repeat", .text "$\x7buser:items\x7d"),
        ("@when", .array
          [.object [("@if", .text "$\x7brepeat:first\x7d"), ("@value", .text "one")],
            .object
              [("@if", .object [("StringEquals",
                .object [("repeat:item", .array [.text "b", .text "c"])])]),
                ("@container", .array
                  [.object [("@if", .bool true), ("name", .text "$\x7brepeat:item\x7d")]])]])]
    let equals (literal : String) : Expr :=
      .call ⟨⟨"repeat", "item"⟩, [⟨"cond", ["StringEquals", literal]⟩]⟩
    let e : Expr := .repetition (.interpolated [.call ⟨⟨"user", "items"⟩, []⟩]) (.conditional
      [.mk (some (.interpolated [.call ⟨⟨"repeat", "first"⟩, []⟩])) (.text "one"),
        .mk (some (.any [equals "b", equals "c"])) (.tree
          [.merge (.conditional [.mk (some (.const (.bool true)))
            (.tree [.field "name" (.interpolated [.call ⟨⟨"repeat", "item"⟩, []⟩])])])])])
    let env : Env :=
      ⟨Resolver.standard.add (Key.wildcard "user") Handler.ofContext, Registry.standard⟩
    let context := Context.ofBindings
      [("user", .mapping [("items", .sequence [.text "a", .text "b"])])]
    (Parsed.ofDocument .default document).expr = some e ∧
      (env.evaluate none e context).1 = env.interpretDocument context document ∧
      env.interpretDocument context document =
        .ok (.sequence [.text "one", .mapping [("name", .text "b")]]) := by
  intro document equals e env context
  have hparse : (Parsed.ofDocument .default document).expr = some e := by rfl
  have hsame := evaluate_eq_interpret hparse env context
  have hvalue : (env.evaluate none e context).1 =
      .ok (.sequence [.text "one", .mapping [("name", .text "b")]]) := by rfl
  exact ⟨hparse, hsame, hsame.symm.trans hvalue⟩

end Env

end Stencil
