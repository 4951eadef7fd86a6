import Stencil.Evaluation

/-!
# What evaluations are put together from

An evaluation counts, takes over the outcomes of calls, and raises a few errors of its own; all else
is doing one thing after the other. This file fixes

* the pairs of computations that are put together in the same way from the same outcomes
  (`Metered.Alike`), with what follows for such a pair: both are the same computation, their errors
  have a reason, and what was counted before them changes nothing;
* when two environments agree on calls, in contexts that are related (`Env.Agree`), and that the
  evaluations of an expression with these calls are then such a pair (`Env.Agree.eval`). This is one
  induction on the expression, for two runs as well as for a single one.
-/

namespace Stencil

/-- The errors that an evaluation raises of its own accord, whatever the keys and filters are. -/
inductive EvalError.Intrinsic : EvalError → Prop where
  | notIterable (found : Value.Kind) : Intrinsic (.notIterable (.source found))
  | branchNotMapping (found : Value.Kind) : Intrinsic (.typeMismatch (.branchNotMapping found))
  | noMatchingClause : Intrinsic .noMatchingClause
  | gasExhausted : Intrinsic .gasExhausted

namespace Metered

variable {α β : Type} {reason : EvalError → Prop}

/-! ## 1. Putting together -/

/-- Two computations that are put together in the same way: from units of gas and from outcomes
    that both have. Every error has a reason. -/
inductive Alike (reason : EvalError → Prop) : {α : Type} → Metered α → Metered α → Prop where
  | outcome {α : Type} {o : Outcome α} (h : ∀ error, o = .error error → reason error) :
      Alike reason (ofOutcome o) (ofOutcome o)
  | tick (h : reason .gasExhausted) : Alike reason tick tick
  | bind {α β : Type} {m m' : Metered α} {f f' : α → Metered β} (hm : Alike reason m m')
      (hf : ∀ a, Alike reason (f a) (f' a)) : Alike reason (m.bind f) (m'.bind f')

namespace Alike

theorem pure (a : α) : Alike reason (pure a) (pure a) :=
  outcome (o := .ok a) fun _ h => by cases h

theorem map {m m' : Metered α} (h : Alike reason m m') (f : α → β) :
    Alike reason (m.map f) (m'.map f) :=
  h.bind fun a => pure (f a)

theorem forEach {body body' : Context → Metered (Option Value)} {context context' : Context}
    {count : Nat} (h : ∀ item i, Alike reason (body (context.forElement item i count))
      (body' (context'.forElement item i count))) :
    ∀ (i : Nat) (items : List Value), Alike reason (Metered.forEach body context count i items)
      (Metered.forEach body' context' count i items)
  | _, [] => pure []
  | i, item :: rest => (h item i).bind fun _ => (forEach h (i + 1) rest).map _

/-! ## 2. What follows -/

/-- **Both are the same computation.** -/
theorem eq {m m' : Metered α} (h : Alike reason m m') : m = m' := by
  induction h with
  | outcome h => rfl
  | tick h => rfl
  | bind hm hf ihm ihf =>
    subst ihm
    exact congrArg _ (funext ihf)

/-- **Errors have a reason**, under a limit and without one. -/
theorem reason_of_error {m m' : Metered α} (h : Alike reason m m') {limit : Option Nat}
    {gas : Nat} {error : EvalError} (herror : (m limit gas).1 = .error error) : reason error := by
  induction h generalizing gas with
  | outcome h => exact h error herror
  | tick h =>
    unfold Metered.tick at herror
    split at herror
    · split at herror
      · obtain rfl := Except.error.inj herror
        exact h
      · cases herror
    · cases herror
  | @bind α β m m' f f' hm hf ihm ihf =>
    -- the error is that of the part that is run last
    unfold Metered.bind at herror
    rcases hrun : m limit gas with ⟨first | a, between⟩
    · rw [hrun] at herror
      obtain rfl := Except.error.inj herror
      exact ihm (congrArg Prod.fst hrun)
    · rw [hrun] at herror
      exact ihf a herror

/-- **What was counted before is only added**: without a limit there are one outcome and one
    amount of gas. -/
theorem uniform {m m' : Metered α} (h : Alike reason m m') :
    ∃ o n, ∀ gas, m none gas = (o, gas + n) := by
  induction h with
  | @outcome α o h => exact ⟨o, 0, fun gas => rfl⟩
  | tick h => exact ⟨.ok (), 1, fun gas => rfl⟩
  | bind hm hf ihm ihf =>
    obtain ⟨o, n, hfirst⟩ := ihm
    unfold Metered.bind
    simp only [hfirst]
    cases o with
    | error error => exact ⟨.error error, n, fun gas => rfl⟩
    | ok a =>
      obtain ⟨o', k, hsecond⟩ := ihf a
      exact ⟨o', n + k, fun gas => (hsecond (gas + n)).trans (by rw [Nat.add_assoc])⟩

end Alike

end Metered

/-! ## 3. Environments that agree -/

namespace Env

open Metered

/-- Two environments have the same outcomes for calls, in contexts that are related, and their
    errors have a reason. Binding an element leaves contexts related. -/
structure Agree (env env' : Env) (related : Context → Context → Prop)
    (reason : EvalError → Prop) (calls : List Call) : Prop where
  forElement {c c' : Context} (h : related c c') (item : Value) (i count : Nat) :
    related (c.forElement item i count) (c'.forElement item i count)
  evalCall {c c' : Context} (h : related c c') {call : Call} (hcall : call ∈ calls) :
    env.evalCall c call = env'.evalCall c' call
  reason_of_call {c c' : Context} (h : related c c') {call : Call} (hcall : call ∈ calls)
    {error : EvalError} (herror : env.evalCall c call = .error error) : reason error
  intrinsic {error : EvalError} (h : error.Intrinsic) : reason error

variable {env env' : Env} {related : Context → Context → Prop} {reason : EvalError → Prop}
  {calls more : List Call} {context context' : Context}

namespace Agree

/-- An environment agrees with itself. -/
theorem refl (env : Env) (calls : List Call) :
    Agree env env (· = ·) (fun _ => True) calls where
  forElement hc item i count := by rw [hc]
  evalCall hc _ _ := by rw [hc]
  reason_of_call _ _ _ _ _ := trivial
  intrinsic _ := trivial

/-- Fewer calls. -/
theorem mono (h : Agree env env' related reason calls) (hsub : more ⊆ calls) :
    Agree env env' related reason more where
  forElement := h.forElement
  evalCall hc _ hcall := h.evalCall hc (hsub hcall)
  reason_of_call hc _ hcall := h.reason_of_call hc (hsub hcall)
  intrinsic := h.intrinsic

theorem left (h : Agree env env' related reason (calls ++ more)) :
    Agree env env' related reason calls :=
  h.mono (List.subset_append_left calls more)

theorem right (h : Agree env env' related reason (calls ++ more)) :
    Agree env env' related reason more :=
  h.mono (List.subset_append_right calls more)

theorem tick (h : Agree env env' related reason calls) : Alike reason tick tick :=
  .tick (h.intrinsic .gasExhausted)

/-- The call in front of others. -/
theorem call {call : Call} (h : Agree env env' related reason (call :: more))
    (hc : related context context') :
    Alike reason (ofOutcome (env.evalCall context call))
      (ofOutcome (env'.evalCall context' call)) := by
  rw [← h.evalCall hc List.mem_cons_self]
  exact .outcome fun _ => h.reason_of_call hc List.mem_cons_self

end Agree

/-! ## 4. Texts -/

theorem ofOutcome_map {α β : Type} (o : Outcome α) (f : α → β) :
    ofOutcome (o.map f) = (ofOutcome o).map f := by
  cases o <;> rfl

theorem ofOutcome_evalPieces_call (env : Env) (context : Context) (c : Call)
    (rest : List Piece) : ofOutcome (env.evalPieces context (.call c :: rest)) =
      (ofOutcome (env.evalCall context c)).bind fun v =>
        (ofOutcome (env.evalPieces context rest)).map fun t => v.display ++ t := by
  rw [evalPieces]
  cases env.evalCall context c with
  | error error => rfl
  | ok v => exact ofOutcome_map _ _

namespace Agree

theorem evalPieces {pieces : List Piece}
    (h : Agree env env' related reason (Expr.pieceCalls pieces)) (hc : related context context') :
    Alike reason (ofOutcome (env.evalPieces context pieces))
      (ofOutcome (env'.evalPieces context' pieces)) := by
  induction pieces with
  | nil => exact .pure ""
  | cons piece rest ih =>
    cases piece with
    | text s =>
      rw [Env.evalPieces, Env.evalPieces, ofOutcome_map, ofOutcome_map]
      exact (ih h).map _
    | call c =>
      rw [ofOutcome_evalPieces_call, ofOutcome_evalPieces_call]
      exact (h.call hc).bind fun v => (ih (h.mono (List.subset_cons_self c _))).map _

theorem evalTemplate {pieces : List Piece}
    (h : Agree env env' related reason (Expr.pieceCalls pieces)) (hc : related context context') :
    Alike reason (ofOutcome (env.evalTemplate context pieces))
      (ofOutcome (env'.evalTemplate context' pieces)) := by
  fun_cases env.evalTemplate context pieces with
  | case1 c => exact h.call hc
  | case2 pieces hpieces =>
    have hother :
        env'.evalTemplate context' pieces = (env'.evalPieces context' pieces).map .text := by
      unfold Env.evalTemplate
      split
      · exact absurd rfl (hpieces _)
      · rfl
    rw [hother, ofOutcome_map, ofOutcome_map]
    exact (h.evalPieces hc).map _

/-! ## 5. Expressions -/

theorem elements (h : Agree env env' related reason calls) (v : Value) :
    Alike reason (ofOutcome v.elements) (ofOutcome v.elements) := by
  refine .outcome fun error herror => ?_
  cases v with
  | sequence items => cases herror
  | _ =>
    obtain rfl := Except.error.inj herror
    exact h.intrinsic (.notIterable _)

theorem withBranch (h : Agree env env' related reason calls) (fields : List (String × Value))
    (result : Option Value) : Alike reason (ofOutcome (Value.withBranch fields result))
      (ofOutcome (Value.withBranch fields result)) := by
  refine .outcome fun error herror => ?_
  cases result with
  | none => cases herror
  | some v =>
    cases v with
    | mapping branch => cases herror
    | _ =>
      obtain rfl := Except.error.inj herror
      exact h.intrinsic (.branchNotMapping _)

mutual

/-- **The evaluations of an expression are alike** where the environments agree on its calls. -/
theorem eval : ∀ {e : Expr} {c c' : Context}, Agree env env' related reason e.calls →
    related c c' → Alike reason (env.eval e c) (env'.eval e c')
  | .const v, _, _, h, _ => by
    rw [Env.eval, Env.eval]
    exact h.tick.bind fun _ => .pure (some v)
  | .interpolated _, _, _, h, hc => by
    rw [Env.eval, Env.eval]
    exact h.tick.bind fun _ => (h.evalTemplate hc).map some
  | .call _, _, _, h, hc => by
    rw [Env.eval, Env.eval]
    exact h.tick.bind fun _ => (h.call hc).map some
  | .tree _, _, _, h, hc => by
    rw [Env.eval, Env.eval]
    exact h.tick.bind fun _ => (evalEntries h hc []).map _
  | .list _, _, _, h, hc => by
    rw [Env.eval, Env.eval]
    exact h.tick.bind fun _ => (evalItems h hc).map _
  | .repetition source body, c, c', h, hc => by
    rw [Env.eval, Env.eval]
    refine h.tick.bind fun _ => (eval h.left hc).bind fun result => ?_
    refine (h.elements _).bind fun items => ?_
    -- the contexts of the body differ from those of the source, and are still related
    exact (Alike.forEach (fun item i => eval h.right (h.forElement hc item i _)) 0 items).map _
  | .conditional _, _, _, h, hc => by
    rw [Env.eval, Env.eval]
    exact h.tick.bind fun _ => evalClauses h hc
  | .all _, _, _, h, hc => by
    rw [Env.eval, Env.eval]
    exact h.tick.bind fun _ => (evalAll h hc).map _
  | .any _, _, _, h, hc => by
    rw [Env.eval, Env.eval]
    exact h.tick.bind fun _ => (evalAny h hc).map _

theorem evalEntries : ∀ {entries : List Entry} {c c' : Context},
    Agree env env' related reason (Expr.entryCalls entries) → related c c' →
    ∀ fields : List (String × Value),
      Alike reason (env.evalEntries entries c fields) (env'.evalEntries entries c' fields)
  | [], _, _, _, _, fields => by
    rw [Env.evalEntries, Env.evalEntries]
    exact .pure fields
  | .field _ _ :: _, _, _, h, hc, fields => by
    rw [Env.evalEntries, Env.evalEntries]
    exact (eval h.left hc).bind fun result => evalEntries h.right hc _
  | .merge _ :: _, _, _, h, hc, fields => by
    rw [Env.evalEntries, Env.evalEntries]
    refine (eval h.left hc).bind fun result => ?_
    exact (h.withBranch fields result).bind fun merged => evalEntries h.right hc merged

theorem evalItems : ∀ {items : List Expr} {c c' : Context},
    Agree env env' related reason (Expr.itemCalls items) → related c c' →
    Alike reason (env.evalItems items c) (env'.evalItems items c')
  | [], _, _, _, _ => by
    rw [Env.evalItems, Env.evalItems]
    exact .pure []
  | _ :: _, _, _, h, hc => by
    rw [Env.evalItems, Env.evalItems]
    exact (eval h.left hc).bind fun _ => (evalItems h.right hc).map _

theorem evalClauses : ∀ {clauses : List Clause} {c c' : Context},
    Agree env env' related reason (Expr.clauseCalls clauses) → related c c' →
    Alike reason (env.evalClauses clauses c) (env'.evalClauses clauses c')
  | [], _, _, _, _ => by
    rw [Env.evalClauses, Env.evalClauses]
    exact .pure none
  | .mk none _ :: _, _, _, h, hc => by
    rw [Env.evalClauses, Env.evalClauses]
    exact eval h.left hc
  | .mk (some _) _ :: _, _, _, h, hc => by
    rw [Env.evalClauses, Env.evalClauses]
    refine (eval h.left.left hc).bind fun held => ?_
    split
    · exact eval h.left.right hc
    · exact evalClauses h.right hc

theorem evalAll : ∀ {predicates : List Expr} {c c' : Context},
    Agree env env' related reason (Expr.itemCalls predicates) → related c c' →
    Alike reason (env.evalAll predicates c) (env'.evalAll predicates c')
  | [], _, _, _, _ => by
    rw [Env.evalAll, Env.evalAll]
    exact .pure true
  | _ :: _, _, _, h, hc => by
    rw [Env.evalAll, Env.evalAll]
    refine (eval h.left hc).bind fun held => ?_
    split
    · exact evalAll h.right hc
    · exact .pure false

theorem evalAny : ∀ {predicates : List Expr} {c c' : Context},
    Agree env env' related reason (Expr.itemCalls predicates) → related c c' →
    Alike reason (env.evalAny predicates c) (env'.evalAny predicates c')
  | [], _, _, _, _ => by
    rw [Env.evalAny, Env.evalAny]
    exact .pure false
  | _ :: _, _, _, h, hc => by
    rw [Env.evalAny, Env.evalAny]
    refine (eval h.left hc).bind fun held => ?_
    split
    · exact .pure true
    · exact evalAny h.right hc

end

theorem evalDocument {e : Expr} (h : Agree env env' related reason e.calls)
    (hc : related context context') :
    Alike reason (env.evalDocument e context) (env'.evalDocument e context') := by
  refine (h.eval hc).bind fun result => ?_
  cases result with
  | some v => exact .pure v
  | none =>
    refine .outcome (o := .error .noMatchingClause) fun error herror => ?_
    obtain rfl := Except.error.inj herror
    exact h.intrinsic .noMatchingClause

end Agree

end Env

end Stencil
