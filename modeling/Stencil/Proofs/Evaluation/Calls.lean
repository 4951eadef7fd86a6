import Stencil.Proofs.Evaluation.Assembly
import Stencil.Proofs.Filter
import Stencil.Proofs.Resolver

/-!
# What the calls of an expression tell beforehand

The calls of an expression are listed without evaluating it (`Expr.calls`). This file fixes what
the list is good for:

* it is a sound check before an evaluation (`Env.missing_of_evaluate`). Whatever turns out to be
  missing, a handler for a key or a filter of a name, is missing for a call of the list;
* it names all that is asked of the keys (`Env.evaluate_eq_of_agrees`). Resolvers that agree on the
  calls of the list cannot be told apart, where the standard filters are used.

Both take the induction on the expression from `Env.Agree`, and look at a single call.
-/

namespace Stencil

/-! ## 1. What is missing -/

/-- The errors that say that something is missing: a handler for a key, or a filter of a name. -/
inductive EvalError.Missing : EvalError → Prop where
  | key (key : Key) : Missing (.unresolvedKey key)
  | filter (name : String) : Missing (.unknownFilter name)

/-- An outcome that does not say that something is missing. -/
def Outcome.Finds {α : Type} (o : Outcome α) : Prop :=
  ∀ error, o = .error error → ¬error.Missing

theorem Outcome.finds_ok {α : Type} (a : α) : Finds (.ok a) := fun _ h => by cases h

theorem EvalError.not_missing_mismatch (cause : Mismatch) : ¬(typeMismatch cause).Missing := nofun

theorem EvalError.Intrinsic.not_missing {error : EvalError} (h : error.Intrinsic) :
    ¬error.Missing := by
  cases h <;> exact nofun

theorem Outcome.Fits.finds {α : Type} {o : Outcome α} (h : o.Fits) : o.Finds := by
  intro error herror
  obtain ⟨cause, rfl⟩ := h error herror
  exact EvalError.not_missing_mismatch cause

/-- A handler that never says of its own accord that something is missing. -/
def Handler.Quiet (handler : Handler) : Prop :=
  ∀ key context, (handler key context).Finds

namespace Resolver

variable {r : Resolver} {key : Key} {context : Context}

/-- Nothing is missing for a key that is owned, if no handler says so. -/
theorem finds_of_owns (h : ∀ handler ∈ r.handlers, handler.Quiet) (howns : r.owns key = true) :
    (r.resolve key context).Finds := by
  intro error herror
  rcases error_of_resolve herror with ⟨hnot, -⟩ | ⟨handler, hmem, other, hfails⟩
  · rw [howns] at hnot
    cases hnot
  · exact h handler hmem other context error hfails

theorem quiet_of_mem_standard {handler : Handler} (h : handler ∈ standard.handlers) :
    handler.Quiet := by
  intro key context
  rcases mem_handlers_standard h with ⟨v, -, rfl⟩ | rfl | rfl
  · exact Outcome.finds_ok v
  · unfold numberLiteral
    split
    · exact Outcome.finds_ok _
    · exact (Outcome.fits_mismatch _).finds
  · exact Outcome.finds_ok _

end Resolver

/-- A standard filter says that something is missing only where a handler says so: a comparison
    asks for the key of its operand only if it is owned. -/
theorem Registry.finds_of_mem_standard {entry : (String × String) × Filter}
    (h : entry ∈ standard.filters) {scope : Scope}
    (hkeys : ∀ handler ∈ scope.keys.handlers, handler.Quiet)
    (v : Value) (args : List String) : (entry.2 v args scope).Finds := by
  rcases plain_or_cond_of_mem h with hplain | rfl
  · exact (hplain.fits v args scope).finds
  · intro error herror
    rcases Filter.Comparison.error_of_cond herror with ⟨cause, rfl⟩ | ⟨key, -, howns, hresolve⟩
    · exact EvalError.not_missing_mismatch cause
    · exact Resolver.finds_of_owns hkeys howns error hresolve

namespace Env

variable {env : Env} {calls : List Call} {context : Context} {error : EvalError}

/-- An environment in which handlers and filters leave it to the look-up to say that something is
    missing: no handler says so of its own accord, and no filter either that is not standard. -/
structure Quiet (env : Env) : Prop where
  handlers : ∀ handler ∈ env.keys.handlers, handler.Quiet
  filters : ∀ entry ∈ env.filters.filters, entry.2 ∈ Registry.standard.filters.map Prod.snd ∨
    ∀ v args context, (entry.2 v args ⟨env.keys, context⟩).Finds

theorem Quiet.finds_of_mem (h : env.Quiet) {entry : (String × String) × Filter}
    (hentry : entry ∈ env.filters.filters) (v : Value) (args : List String) (context : Context) :
    (entry.2 v args ⟨env.keys, context⟩).Finds := by
  rcases h.filters entry hentry with hstandard | hown
  · obtain ⟨original, horiginal, hsame⟩ := List.mem_map.mp hstandard
    rw [← hsame]
    exact Registry.finds_of_mem_standard horiginal h.handlers v args
  · exact hown v args context

/-- **What an environment lacks for some calls.** -/
inductive Lacks (env : Env) (calls : List Call) : EvalError → Prop where
  | key {c : Call} (hc : c ∈ calls) (h : env.keys.owns c.key = false) :
      Lacks env calls (.unresolvedKey c.key)
  | filter {c : Call} {f : FilterCall} (hc : c ∈ calls) (hf : f ∈ c.filters)
      (h : env.filters.contains f.name = false) : Lacks env calls (.unknownFilter f.name)

/-- **What a call says to be missing is missing.** -/
theorem Quiet.lacks_of_evalCall (h : env.Quiet) {c : Call} (hc : c ∈ calls)
    (herror : env.evalCall context c = .error error) (hmissing : error.Missing) :
    env.Lacks calls error := by
  -- no handler and no filter says so itself, so one of the two look-ups failed
  unfold evalCall at herror
  split at herror
  · next failure hresolve =>
    obtain rfl := Except.error.inj herror
    rcases Resolver.error_of_resolve hresolve with ⟨howns, rfl⟩ | ⟨handler, hmem, other, hfails⟩
    · exact .key hc howns
    · exact absurd hmissing (h.handlers handler hmem other context _ hfails)
  · obtain ⟨f, hf, hreason⟩ := Registry.error_of_applyAll herror
    rcases hreason with ⟨hunknown, rfl⟩ | ⟨entry, hmem, input, hfails⟩
    · exact .filter hc hf hunknown
    · exact absurd hmissing (h.finds_of_mem hmem input f.args context _ hfails)

/-- An environment agrees with itself, and what is missing it lacks. -/
theorem Quiet.agree (h : env.Quiet) (calls : List Call) :
    Agree env env (· = ·) (fun error => error.Missing → env.Lacks calls error) calls where
  forElement hc item i count := by rw [hc]
  evalCall hc _ _ := by rw [hc]
  reason_of_call _ _ hcall _ herror := h.lacks_of_evalCall hcall herror
  intrinsic hintrinsic hmissing := absurd hmissing hintrinsic.not_missing

theorem Quiet.lacks_of_evaluate (h : env.Quiet) {limit : Option Nat} {e : Expr}
    (herror : (env.evaluate limit e context).1 = .error error) (hmissing : error.Missing) :
    env.Lacks e.calls error :=
  ((h.agree e.calls).evalDocument rfl).reason_of_error herror hmissing

/-- **The list of calls is a sound check before an evaluation.** Let no handler and no filter of
    one's own say that something is missing. A key that has no handler in an evaluation is the key
    of a call in the list, and is not owned; a filter that is unknown in an evaluation is that of a
    call in the list, and is not registered. So nothing is missing in any evaluation, in whatever
    context and under whatever limit, once the keys of the list are owned and the filters
    registered. -/
theorem missing_of_evaluate (h : env.Quiet) (limit : Option Nat) (e : Expr) (context : Context) :
    (∀ key, (env.evaluate limit e context).1 = .error (.unresolvedKey key) →
      (∃ c ∈ e.calls, c.key = key) ∧ env.keys.owns key = false) ∧
    (∀ name, (env.evaluate limit e context).1 = .error (.unknownFilter name) →
      (∃ c ∈ e.calls, ∃ f ∈ c.filters, f.name = name) ∧ env.filters.contains name = false) ∧
    ((∀ c ∈ e.calls, env.keys.owns c.key = true ∧
        ∀ f ∈ c.filters, env.filters.contains f.name = true) →
      (∀ key, (env.evaluate limit e context).1 ≠ .error (.unresolvedKey key)) ∧
        ∀ name, (env.evaluate limit e context).1 ≠ .error (.unknownFilter name)) := by
  have hkey : ∀ key, (env.evaluate limit e context).1 = .error (.unresolvedKey key) →
      (∃ c ∈ e.calls, c.key = key) ∧ env.keys.owns key = false := by
    intro key herror
    cases h.lacks_of_evaluate herror (.key key) with
    | key hc howns => exact ⟨⟨_, hc, rfl⟩, howns⟩
  have hfilter : ∀ name, (env.evaluate limit e context).1 = .error (.unknownFilter name) →
      (∃ c ∈ e.calls, ∃ f ∈ c.filters, f.name = name) ∧ env.filters.contains name = false := by
    intro name herror
    cases h.lacks_of_evaluate herror (.filter name) with
    | filter hc hf hunknown => exact ⟨⟨_, hc, _, hf, rfl⟩, hunknown⟩
  refine ⟨hkey, hfilter, fun hchecked => ⟨fun key herror => ?_, fun name herror => ?_⟩⟩
  · obtain ⟨⟨c, hc, rfl⟩, howns⟩ := hkey key herror
    rw [(hchecked c hc).1] at howns
    cases howns
  · obtain ⟨⟨c, hc, f, hf, rfl⟩, hunknown⟩ := hfilter name herror
    rw [(hchecked c hc).2 f hf] at hunknown
    cases hunknown

/-- The standard keys and filters, with one filter more that reads the context. A comparison with
    the operand `user:name`, which nothing owns, compares with a text; the call behind it asks for
    a key that nothing owns. -/
theorem missing_of_evaluate_unowned_key :
    let volume : Filter := fun v _ scope => .ok ((scope.context.get? "volume").getD v)
    let env : Env := ⟨Resolver.standard, Registry.standard.register "own" "volume" volume⟩
    let compared : Call :=
      ⟨⟨"Bool", "true"⟩, [⟨"volume", []⟩, ⟨"cond", ["StringEquals", "user", "name"]⟩]⟩
    let unowned : Call := ⟨⟨"user", "name"⟩, []⟩
    let e : Expr := .any [.call compared, .call unowned]
    env.Quiet ∧ (env.evaluate (some 3) e .empty).1 = .error (.unresolvedKey unowned.key) ∧
      env.keys.owns unowned.key = false := by
  intro volume env compared unowned e
  have hquiet : env.Quiet := by
    refine ⟨fun _ => Resolver.quiet_of_mem_standard, fun entry hentry => ?_⟩
    rcases Dictionary.mem_of_mem_insert hentry with hstandard | rfl
    · exact .inl (List.mem_map_of_mem hstandard)
    · exact .inr fun _ _ _ => Outcome.finds_ok _
  have herror : (env.evaluate (some 3) e .empty).1 = .error (.unresolvedKey unowned.key) := by
    -- the recursion over an expression does not unfold behind its name
    subst e compared unowned env volume
    rfl
  obtain ⟨hkey, -, -⟩ := missing_of_evaluate hquiet (some 3) e .empty
  exact ⟨hquiet, herror, (hkey _ herror).2⟩

end Env

/-! ## 2. What is asked of the keys -/

/-- Resolvers that agree on a call: on its key, and on the key of the operand wherever a filter of
    the call is a comparison that may ask for one. -/
structure Resolver.Agrees (a b : Resolver) (c : Call) : Prop where
  resolve (context : Context) : a.resolve c.key context = b.resolve c.key context
  owns {f : FilterCall} (hf : f ∈ c.filters) (key : Key) (hasks : f.operandKey? = some key) :
    a.owns key = b.owns key
  operand {f : FilterCall} (hf : f ∈ c.filters) (key : Key) (hasks : f.operandKey? = some key)
    (context : Context) : a.resolve key context = b.resolve key context

/-- Resolvers that answer the keys of a call alike. -/
theorem Resolver.Agrees.of_locate? {a b : Resolver} {c : Call}
    (hkey : a.locate? c.key = b.locate? c.key)
    (hoperand : ∀ f ∈ c.filters, ∀ key, f.operandKey? = some key →
      a.locate? key = b.locate? key) : a.Agrees b c where
  resolve := resolve_congr hkey
  owns hf key hasks := by rw [Resolver.owns, Resolver.owns, hoperand _ hf key hasks]
  operand hf key hasks := resolve_congr (hoperand _ hf key hasks)

namespace Env

variable {a b : Resolver} {context : Context}

theorem evalCall_eq_of_agrees {c : Call} (h : a.Agrees b c) :
    evalCall ⟨a, .standard⟩ context c = evalCall ⟨b, .standard⟩ context c := by
  unfold evalCall
  simp only [h.resolve]
  split
  · rfl
  · refine Registry.applyAll_congr fun f hf v => Registry.apply_standard_congr fun key hasks => ?_
    exact ⟨h.owns hf key hasks, h.operand hf key hasks context⟩

theorem agree_of_agrees {calls : List Call} (h : ∀ c ∈ calls, a.Agrees b c) :
    Agree ⟨a, .standard⟩ ⟨b, .standard⟩ (· = ·) (fun _ => True) calls where
  forElement hc item i count := by rw [hc]
  evalCall hc _ hcall := by rw [hc, evalCall_eq_of_agrees (h _ hcall)]
  reason_of_call _ _ _ _ _ := trivial
  intrinsic _ := trivial

/-- **An evaluation asks for the keys of the list of calls, and for no others.** With the standard
    filters, resolvers that agree on every call of the list give the same outcome for the same gas:
    whatever else they hold has no influence on a clause chosen, on the number of elements, or on
    where an evaluation ends. -/
theorem evaluate_eq_of_agrees {e : Expr} (h : ∀ c ∈ e.calls, a.Agrees b c) (limit : Option Nat)
    (context : Context) :
    evaluate ⟨a, .standard⟩ limit e context = evaluate ⟨b, .standard⟩ limit e context := by
  have hrun : evalDocument ⟨a, .standard⟩ e context = evalDocument ⟨b, .standard⟩ e context :=
    ((agree_of_agrees h).evalDocument rfl).eq
  rw [evaluate_eq, evaluate_eq, hrun]

/-- One resolver holds a secret that the other does not. An expression that goes through the tags of
    a user and compares each with the name of the user does not tell them apart. -/
theorem evaluate_eq_of_agrees_tags :
    let base := Resolver.standard.add (Key.wildcard "user") Handler.ofContext
    let secret := Resolver.ofHandlers [(⟨"secret", "token"⟩, Handler.const (.text "x"))]
    let tags : Call := ⟨⟨"user", "tags"⟩, []⟩
    let isName : Call := ⟨⟨"repeat", "item"⟩, [⟨"cond", ["StringEquals", "user", "name"]⟩]⟩
    let index : Call := ⟨⟨"repeat", "index"⟩, []⟩
    let e : Expr :=
      .repetition (.call tags) (.conditional [.mk (some (.call isName)) (.call index)])
    let user : Value := .mapping
      [("name", .text "a"), ("tags", .sequence [.text "b", .text "a"])]
    (∀ c ∈ e.calls, base.Agrees (base.compose secret) c) ∧
      evaluate ⟨base, .standard⟩ (some 9) e (.ofBindings [("user", user)]) =
        evaluate ⟨base.compose secret, .standard⟩ (some 9) e (.ofBindings [("user", user)]) := by
  intro base secret tags isName index e user
  have htags : base.Agrees (base.compose secret) tags := .of_locate? rfl nofun
  have hisName : base.Agrees (base.compose secret) isName := by
    refine .of_locate? rfl fun f hf key hasks => ?_
    obtain rfl := List.mem_singleton.mp hf
    obtain rfl := Option.some.inj hasks
    rfl
  have hindex : base.Agrees (base.compose secret) index := .of_locate? rfl nofun
  have hagrees : ∀ c ∈ e.calls, base.Agrees (base.compose secret) c := by
    simp [e, Expr.calls, Expr.clauseCalls, htags, hisName, hindex]
  exact ⟨hagrees, evaluate_eq_of_agrees hagrees (some 9) _⟩

end Env

end Stencil
