import Stencil.Proofs.Evaluation.Assembly

/-!
# What a limit of gas does

An evaluation under a limit is the evaluation without one, cut off where its count exceeds the
limit. This file fixes

* what is left of a run (`Metered.cut`), and the computations of which a limit leaves just that
  (`Metered.Truncates`): the unit of gas and outcomes are such, and what is put together from such;
* that the evaluation of every expression is one of them (`Env.truncates_eval`), being put together
  in this way, so no construct counts twice or not at all under a limit;
* how an evaluator that has already evaluated other documents goes on (`Evaluator.evaluate_after`):
  as if it were new.
-/

namespace Stencil

namespace Metered

variable {α β : Type}

/-! ## 1. Cutting a run off -/

/-- What a limit leaves of an outcome and the gas used for it. -/
def cut (limit : Nat) (run : Outcome α × Nat) : Outcome α × Nat :=
  if run.2 ≤ limit then run else (.error .gasExhausted, limit + 1)

theorem cut_of_le {limit : Nat} {run : Outcome α × Nat} (h : run.2 ≤ limit) :
    cut limit run = run := if_pos h

theorem cut_of_lt {limit : Nat} {run : Outcome α × Nat} (h : limit < run.2) :
    cut limit run = (.error .gasExhausted, limit + 1) := if_neg (Nat.not_le_of_lt h)

/-- A cut run that has a result is not cut off. -/
theorem eq_of_cut_eq_ok {limit n : Nat} {run : Outcome α × Nat} {a : α}
    (h : cut limit run = (.ok a, n)) : run = (.ok a, n) := by
  unfold cut at h
  split at h
  · exact h
  · cases h

/-- A computation that never gives gas back, and of which a limit that is not yet exceeded leaves
    the run without a limit, cut off. -/
structure Truncates (m : Metered α) : Prop where
  grows : ∀ gas, gas ≤ (m none gas).2
  cuts : ∀ limit gas, gas ≤ limit → m (some limit) gas = cut limit (m none gas)

/-! ## 2. What truncates -/

theorem truncates_ofOutcome (o : Outcome α) : (ofOutcome o).Truncates where
  grows gas := Nat.le_refl gas
  cuts _ _ h := (cut_of_le h).symm

theorem truncates_tick : tick.Truncates where
  grows gas := Nat.le_succ gas
  cuts limit gas h := by
    show (if limit < gas + 1 then (.error .gasExhausted, gas + 1) else (.ok (), gas + 1)) =
      cut limit ((.ok (), gas + 1) : Outcome Unit × Nat)
    by_cases hlt : limit < gas + 1
    · have hgas : gas = limit := Nat.le_antisymm h (Nat.le_of_lt_succ hlt)
      rw [if_pos hlt, cut_of_lt hlt, hgas]
    · rw [if_neg hlt, cut_of_le (Nat.le_of_not_lt hlt)]

/-- **Truncation goes through a sequence.** Where the first part alone exceeds the limit, the
    second is never reached, and it would only have counted on. -/
theorem Truncates.bind {m : Metered α} {f : α → Metered β} (hm : m.Truncates)
    (hf : ∀ a, (f a).Truncates) : (m.bind f).Truncates where
  grows gas := by
    have hfirst := hm.grows gas
    unfold Metered.bind
    rcases hrun : m none gas with ⟨error | a, between⟩
    · rw [hrun] at hfirst
      exact hfirst
    · rw [hrun] at hfirst
      exact Nat.le_trans hfirst ((hf a).grows between)
  cuts limit gas h := by
    have hfirst := hm.cuts limit gas h
    unfold Metered.bind
    rw [hfirst]
    rcases hrun : m none gas with ⟨error | a, between⟩
    · by_cases hle : between ≤ limit
      · rw [cut_of_le hle, cut_of_le hle]
      · have hlt := Nat.lt_of_not_le hle
        rw [cut_of_lt hlt, cut_of_lt hlt]
    · by_cases hle : between ≤ limit
      · rw [cut_of_le hle]
        exact (hf a).cuts limit between hle
      · have hlt := Nat.lt_of_not_le hle
        have hend : limit < (f a none between).2 := Nat.lt_of_lt_of_le hlt ((hf a).grows between)
        rw [cut_of_lt hlt, cut_of_lt hend]

/-- What is put together from units of gas and outcomes truncates. -/
theorem Alike.truncates {reason : EvalError → Prop} {m m' : Metered α}
    (h : Alike reason m m') : m.Truncates := by
  induction h with
  | outcome h => exact truncates_ofOutcome _
  | tick h => exact truncates_tick
  | bind hm hf ihm ihf => exact ihm.bind ihf

end Metered

/-! ## 3. Evaluation truncates -/

namespace Env

variable (env : Env)

/-- **A limit only cuts the evaluation of an expression off.** -/
theorem truncates_eval (e : Expr) (context : Context) : (env.eval e context).Truncates :=
  ((Agree.refl env e.calls).eval rfl).truncates

theorem truncates_evalDocument (e : Expr) (context : Context) :
    (env.evalDocument e context).Truncates :=
  ((Agree.refl env e.calls).evalDocument rfl).truncates

end Env

/-! ## 4. Evaluators -/

namespace Evaluator

/-- What an evaluator has done before shows in nothing but its old count. -/
theorem env_limit_after (evaluator : Evaluator) (history : List (Expr × Context)) :
    (evaluator.after history).env = evaluator.env ∧
      (evaluator.after history).limit = evaluator.limit := by
  induction history generalizing evaluator with
  | nil => exact ⟨rfl, rfl⟩
  | cons document rest ih =>
    obtain ⟨e, context⟩ := document
    obtain ⟨henv, hlimit⟩ := ih (evaluator.evaluate e context).2
    rw [after]
    exact ⟨henv, hlimit⟩

/-- An evaluator with a history evaluates as a new one does. -/
theorem evaluate_after (evaluator : Evaluator) (history : List (Expr × Context)) (e : Expr)
    (context : Context) :
    let used := (evaluator.after history).evaluate e context
    (used.1, used.2.gas) = evaluator.env.evaluate evaluator.limit e context := by
  obtain ⟨henv, hlimit⟩ := env_limit_after evaluator history
  simp only [evaluate, henv, hlimit]
  rfl

/-- **A limit of gas only truncates.** Let an evaluator without a limit give an outcome, be it a
    value or an error, and use some gas. With a limit it gives the same outcome for the same gas if
    that is within the limit; else it ends with `gasExhausted`, one unit beyond the limit. What it
    has evaluated before, with or without the limit, does not matter. -/
theorem limit_truncates (evaluator : Evaluator) (limit : Nat)
    (history earlier : List (Expr × Context)) (e : Expr) (context : Context) :
    let free := ((evaluator.withLimit none).after earlier).evaluate e context
    let bounded := ((evaluator.withLimit (some limit)).after history).evaluate e context
    (bounded.1, bounded.2.gas) =
      if free.2.gas ≤ limit then (free.1, free.2.gas) else (.error .gasExhausted, limit + 1) := by
  intro free bounded
  have hfree : (free.1, free.2.gas) = evaluator.env.evaluate none e context :=
    evaluate_after (evaluator.withLimit none) earlier e context
  have hbounded : (bounded.1, bounded.2.gas) = evaluator.env.evaluate (some limit) e context :=
    evaluate_after (evaluator.withLimit (some limit)) history e context
  have hcut : evaluator.env.evaluate (some limit) e context =
      Metered.cut limit (evaluator.env.evaluate none e context) :=
    (evaluator.env.truncates_evalDocument e context).cuts limit 0 (Nat.zero_le limit)
  rw [hbounded, hcut, ← hfree]
  rfl

end Evaluator

end Stencil
