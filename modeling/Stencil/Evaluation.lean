import Stencil.Filter.Standard
import Stencil.Resolver.Standard

/-!
# Evaluation

This file fixes the value of an expression in a context. An expression can also be absent: a
conditional of which no clause holds has no value, and its field, element or branch is left out.

Every expression costs one unit of gas when it is entered, and the count is kept also when the
evaluation fails. An evaluation with a limit ends as soon as the count exceeds it. `Metered` is a
computation that counts in this way; `evaluate` is the evaluation of a whole document, and an
`Evaluator` evaluates documents one after the other.
-/

namespace Stencil

/-! ## 1. Counting -/

/-- A computation that uses gas: from the limit and the gas used before to an outcome and the gas
    used after it. -/
def Metered (α : Type) : Type :=
  Option Nat → Nat → Outcome α × Nat

namespace Metered

variable {α β γ : Type}

/-- A result that costs nothing. -/
def pure (a : α) : Metered α :=
  fun _ gas => (.ok a, gas)

/-- An outcome that costs nothing. -/
def ofOutcome (o : Outcome α) : Metered α :=
  fun _ gas => (o, gas)

/-- An error. -/
def fail (e : EvalError) : Metered α :=
  fun _ gas => (.error e, gas)

/-- A computation, and one that depends on its result; an error ends both. -/
def bind (m : Metered α) (f : α → Metered β) : Metered β :=
  fun limit gas =>
    match m limit gas with
    | (.ok a, after) => f a limit after
    | (.error e, after) => (.error e, after)

/-- The computation with another result. -/
def map (f : α → β) (m : Metered α) : Metered β :=
  m.bind fun a => pure (f a)

/-- Uses one unit. -/
def tick : Metered Unit :=
  fun limit gas =>
    match limit with
    | some most => if most < gas + 1 then (.error .gasExhausted, gas + 1) else (.ok (), gas + 1)
    | none => (.ok (), gas + 1)

theorem pure_bind (a : α) (f : α → Metered β) : (pure a).bind f = f a := rfl

theorem bind_assoc (m : Metered α) (f : α → Metered β) (g : β → Metered γ) :
    (m.bind f).bind g = m.bind fun a => (f a).bind g := by
  funext limit gas
  unfold Metered.bind
  rcases m limit gas with ⟨error | a, between⟩ <;> rfl

end Metered

/-! ## 2. Calls and texts -/

/-- The keys and the filters of an evaluation. -/
structure Env where
  keys : Resolver
  filters : Registry

namespace Env

/-- The value of a call. -/
def evalCall (env : Env) (context : Context) (c : Call) : Outcome Value :=
  match env.keys.resolve c.key context with
  | .error e => .error e
  | .ok v => env.filters.applyAll ⟨env.keys, context⟩ c.filters v

/-- The text of the parts of a template, one after the other. -/
def evalPieces (env : Env) (context : Context) : List Piece → Outcome String
  | [] => .ok ""
  | .text s :: rest => (env.evalPieces context rest).map fun t => s ++ t
  | .call c :: rest =>
    match env.evalCall context c with
    | .error e => .error e
    | .ok v => (env.evalPieces context rest).map fun t => v.display ++ t

/-- The value of a template: that of its call, if it is nothing else, or a text. -/
def evalTemplate (env : Env) (context : Context) : List Piece → Outcome Value
  | [.call c] => env.evalCall context c
  | pieces => (env.evalPieces context pieces).map .text

end Env

/-! ## 3. Objects and repetitions -/

/-- A mapping with a field more, if there is a value for it. -/
def Value.withField (fields : List (String × Value)) (name : String) :
    Option Value → List (String × Value)
  | some v => Dictionary.insert fields name v
  | none => fields

/-- A mapping with the fields of a branch, if there is one. -/
def Value.withBranch (fields : List (String × Value)) :
    Option Value → Outcome (List (String × Value))
  | none => .ok fields
  | some (.mapping branch) => .ok (Dictionary.extend fields branch)
  | some v => .error (.typeMismatch (.branchNotMapping v.kind))

/-- The elements that a repetition goes through. -/
def Value.elements : Value → Outcome (List Value)
  | .sequence items => .ok items
  | v => .error (.notIterable (.source v.kind))

/-- What the body of a repetition knows of the element at an index, of `count` in all. -/
def Value.repeatBinding (item : Value) (index count : Nat) : Value :=
  .mapping
    [("item", item), ("index", .ofNat index), ("first", .bool (index = 0)),
     ("last", .bool (index + 1 = count)), ("odd", .bool (index % 2 = 1)),
     ("even", .bool (index % 2 = 0))]

/-- The context of the body for the element at an index. -/
def Context.forElement (c : Context) (item : Value) (index count : Nat) : Context :=
  c.bind Resolver.repeatSpace (Value.repeatBinding item index count)

/-- The results of a body for elements, the first of which is at an index; absent ones are left
    out. -/
def Metered.forEach (body : Context → Metered (Option Value)) (context : Context) (count : Nat) :
    Nat → List Value → Metered (List Value)
  | _, [] => .pure []
  | i, item :: rest =>
    (body (context.forElement item i count)).bind fun result =>
      (Metered.forEach body context count (i + 1) rest).map fun others => result.toList ++ others

/-! ## 4. Expressions -/

mutual

/-- The value of an expression, or its absence. -/
def Env.eval (env : Env) : Expr → Context → Metered (Option Value)
  | .const v, _ => Metered.tick.bind fun _ => .pure (some v)
  | .interpolated pieces, context =>
    Metered.tick.bind fun _ => (Metered.ofOutcome (env.evalTemplate context pieces)).map some
  | .call c, context =>
    Metered.tick.bind fun _ => (Metered.ofOutcome (env.evalCall context c)).map some
  | .tree entries, context =>
    Metered.tick.bind fun _ => (env.evalEntries entries context []).map fun fields =>
      some (.mapping fields)
  | .list items, context =>
    Metered.tick.bind fun _ => (env.evalItems items context).map fun values =>
      some (.sequence values)
  | .repetition source body, context =>
    Metered.tick.bind fun _ =>
      (env.eval source context).bind fun result =>
        (Metered.ofOutcome (result.getD .null).elements).bind fun items =>
          (Metered.forEach (fun inner => env.eval body inner) context items.length 0 items).map
            fun values => some (.sequence values)
  | .conditional clauses, context => Metered.tick.bind fun _ => env.evalClauses clauses context
  | .all predicates, context =>
    Metered.tick.bind fun _ => (env.evalAll predicates context).map fun b => some (.bool b)
  | .any predicates, context =>
    Metered.tick.bind fun _ => (env.evalAny predicates context).map fun b => some (.bool b)

/-- The fields of an object, added to those of the entries before. -/
def Env.evalEntries (env : Env) :
    List Entry → Context → List (String × Value) → Metered (List (String × Value))
  | [], _, fields => .pure fields
  | .field name e :: rest, context, fields =>
    (env.eval e context).bind fun result =>
      env.evalEntries rest context (Value.withField fields name result)
  | .merge e :: rest, context, fields =>
    (env.eval e context).bind fun result =>
      (Metered.ofOutcome (Value.withBranch fields result)).bind fun merged =>
        env.evalEntries rest context merged

/-- The values of the elements of a sequence; absent ones are left out. -/
def Env.evalItems (env : Env) : List Expr → Context → Metered (List Value)
  | [], _ => .pure []
  | e :: rest, context =>
    (env.eval e context).bind fun result =>
      (env.evalItems rest context).map fun others => result.toList ++ others

/-- The result of the first clause whose predicate holds; absent if there is none. -/
def Env.evalClauses (env : Env) : List Clause → Context → Metered (Option Value)
  | [], _ => .pure none
  | .mk none result :: _, context => env.eval result context
  | .mk (some predicate) result :: rest, context =>
    (env.eval predicate context).bind fun held =>
      if (held.getD .null).isTruthy then env.eval result context
      else env.evalClauses rest context

/-- Do all predicates hold? The first that does not ends the evaluation. -/
def Env.evalAll (env : Env) : List Expr → Context → Metered Bool
  | [], _ => .pure true
  | e :: rest, context =>
    (env.eval e context).bind fun held =>
      if (held.getD .null).isTruthy then env.evalAll rest context else .pure false

/-- Does some predicate hold? The first that does ends the evaluation. -/
def Env.evalAny (env : Env) : List Expr → Context → Metered Bool
  | [], _ => .pure false
  | e :: rest, context =>
    (env.eval e context).bind fun held =>
      if (held.getD .null).isTruthy then .pure true else env.evalAny rest context

end

/-! ## 5. Documents -/

/-- The value of a document; an absent one is an error. -/
def Env.evalDocument (env : Env) (e : Expr) (context : Context) : Metered Value :=
  (env.eval e context).bind fun
    | some v => .pure v
    | none => .fail .noMatchingClause

/-! ## 6. Evaluators -/

/-- An evaluator is used for one document after the other. It has a limit of gas, and remembers
    how much the last evaluation used. -/
structure Evaluator where
  env : Env
  limit : Option Nat
  gas : Nat

namespace Evaluator

/-- The evaluator that has done nothing yet, without a limit. -/
def ofEnv (env : Env) : Evaluator :=
  ⟨env, none, 0⟩

/-- The evaluator with another limit. -/
def withLimit (evaluator : Evaluator) (limit : Option Nat) : Evaluator :=
  { evaluator with limit := limit }

/-- The outcome of a document, and the evaluator after it. The count starts anew. -/
def evaluate (evaluator : Evaluator) (e : Expr) (context : Context) :
    Outcome Value × Evaluator :=
  let started : Evaluator := { evaluator with gas := 0 }
  let (outcome, gas) := started.env.evalDocument e context started.limit started.gas
  (outcome, { started with gas := gas })

/-- The evaluator after a list of documents, each in its context. -/
def after (evaluator : Evaluator) : List (Expr × Context) → Evaluator
  | [] => evaluator
  | (e, context) :: rest => (evaluator.evaluate e context).2.after rest

end Evaluator

/-- The outcome of evaluating a document with a new evaluator under a limit of gas, and the gas it
    used. -/
def Env.evaluate (env : Env) (limit : Option Nat) (e : Expr) (context : Context) :
    Outcome Value × Nat :=
  let (outcome, evaluator) := ((Evaluator.ofEnv env).withLimit limit).evaluate e context
  (outcome, evaluator.gas)

theorem Env.evaluate_eq (env : Env) (limit : Option Nat) (e : Expr) (context : Context) :
    env.evaluate limit e context = env.evalDocument e context limit 0 := rfl

end Stencil
