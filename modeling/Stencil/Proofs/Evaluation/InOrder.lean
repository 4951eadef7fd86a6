import Mathlib.Data.List.ReduceOption
import Stencil.Evaluation

/-!
# Evaluations one after the other

The entries of an object and the elements of a repetition are evaluated in order, and the first that
fails ends the evaluation. This file fixes

* what a computation in two parts comes to, and why it fails (`Metered.bind_eq_ok_iff`,
  `Metered.bind_eq_error_iff`), also where the first part is a unit of gas (`Metered.Affords`);
* a list of computations in order (`Metered.inOrder`): it fails with the first of them that fails
  (`Metered.inOrder_eq_error_iff`);
* that the entries of an object are such a list, each of which contributes pairs
  (`Env.evalEntries_eq_inOrder`), and so are the iterations of a repetition, each in a context of
  its own (`Env.forEach_eq_inOrder`).
-/

namespace Stencil

namespace Metered

variable {α β : Type} {limit : Option Nat} {gas after : Nat} {error : EvalError}

/-! ## 1. Two parts -/

theorem bind_of_ok {m : Metered α} {f : α → Metered β} {a : α}
    (h : m limit gas = (.ok a, after)) : m.bind f limit gas = f a limit after := by
  unfold Metered.bind
  rw [h]

theorem bind_eq_ok_iff {m : Metered α} {f : α → Metered β} {b : β} :
    m.bind f limit gas = (.ok b, after) ↔
      ∃ a between, m limit gas = (.ok a, between) ∧ f a limit between = (.ok b, after) := by
  unfold Metered.bind
  rcases m limit gas with ⟨failure | a, between⟩
  · simp
  · simp

/-- An error is that of the first part, or that of the second behind it. -/
theorem bind_eq_error_iff {m : Metered α} {f : α → Metered β} :
    m.bind f limit gas = (.error error, after) ↔ m limit gas = (.error error, after) ∨
      ∃ a between, m limit gas = (.ok a, between) ∧ f a limit between = (.error error, after) := by
  unfold Metered.bind
  rcases m limit gas with ⟨failure | a, between⟩
  · simp
  · simp

theorem map_eq_ok_iff {m : Metered α} {f : α → β} {b : β} :
    m.map f limit gas = (.ok b, after) ↔ ∃ a, m limit gas = (.ok a, after) ∧ f a = b := by
  rw [Metered.map, bind_eq_ok_iff]
  simp only [Metered.pure, Prod.mk.injEq, Except.ok.injEq]
  constructor
  · rintro ⟨a, between, h, rfl, rfl⟩
    exact ⟨a, h, rfl⟩
  · rintro ⟨a, h, rfl⟩
    exact ⟨a, after, h, rfl, rfl⟩

theorem map_eq_error_iff {m : Metered α} {f : α → β} :
    m.map f limit gas = (.error error, after) ↔ m limit gas = (.error error, after) := by
  rw [Metered.map, bind_eq_error_iff]
  exact or_iff_left fun ⟨_, _, _, h⟩ => by cases h

/-- There is a unit of gas left under the limit. -/
def Affords (limit : Option Nat) (gas : Nat) : Prop :=
  ∀ most ∈ limit, gas < most

theorem Affords.of_succ (h : Affords limit (gas + 1)) : Affords limit gas :=
  fun most hmost => Nat.lt_of_succ_lt (h most hmost)

/-- **A unit is used**, and the computation goes on behind it. -/
theorem tick_bind_of_affords {f : Unit → Metered β} (h : Affords limit gas) :
    tick.bind f limit gas = f () limit (gas + 1) := by
  unfold Metered.bind tick
  cases limit with
  | none => rfl
  | some most =>
    have hle : ¬most < gas + 1 := Nat.not_lt.mpr (h most rfl)
    simp only [if_neg hle]

theorem tick_bind_of_not_affords {f : Unit → Metered β} (h : ¬Affords limit gas) :
    tick.bind f limit gas = (.error .gasExhausted, gas + 1) := by
  unfold Metered.bind tick
  cases limit with
  | none => exact absurd nofun h
  | some most =>
    have hlt : most < gas + 1 := by
      refine Nat.lt_succ_of_le (Nat.not_lt.mp fun hless => h fun other hother => ?_)
      exact Option.some.inj hother ▸ hless
    simp only [if_pos hlt]

/-- **What follows a unit of gas succeeds** if the unit is there and the rest succeeds. -/
theorem tick_bind_eq_ok_iff {f : Unit → Metered β} {b : β} :
    tick.bind f limit gas = (.ok b, after) ↔
      Affords limit gas ∧ f () limit (gas + 1) = (.ok b, after) := by
  by_cases h : Affords limit gas
  · rw [tick_bind_of_affords h, and_iff_right h]
  · rw [tick_bind_of_not_affords h]
    exact iff_of_false nofun fun hboth => h hboth.1

/-- It fails if there is no unit left, or the rest fails. -/
theorem tick_bind_eq_error_iff {f : Unit → Metered β} :
    tick.bind f limit gas = (.error error, after) ↔
      ¬Affords limit gas ∧ error = .gasExhausted ∧ after = gas + 1 ∨
        Affords limit gas ∧ f () limit (gas + 1) = (.error error, after) := by
  by_cases h : Affords limit gas
  · simp only [tick_bind_of_affords h, h, not_true_eq_false, false_and, false_or, true_and]
  · simp only [tick_bind_of_not_affords h, h, not_false_eq_true, true_and, false_and, or_false,
      Prod.mk.injEq, Except.error.injEq, eq_comm]

/-! ## 2. Any number of parts -/

/-- Computations one after the other, with their results in a list. -/
def inOrder : List (Metered α) → Metered (List α)
  | [] => pure []
  | m :: rest => m.bind fun a => (inOrder rest).map fun others => a :: others

variable {m : Metered α} {ms : List (Metered α)}

/-- **Why a list of computations fails**: those before one of them have results, and that one
    fails. -/
theorem inOrder_eq_error_iff :
    inOrder ms limit gas = (.error error, after) ↔
      ∃ before m behind results between, ms = before ++ m :: behind ∧
        inOrder before limit gas = (.ok results, between) ∧
          m limit between = (.error error, after) := by
  induction ms generalizing gas with
  | nil =>
    refine iff_of_false (fun h => by cases h) ?_
    rintro ⟨before, m, behind, _, _, hsplit, -⟩
    simp at hsplit
  | cons first rest ih =>
    rw [inOrder, bind_eq_error_iff]
    simp only [map_eq_error_iff, ih]
    constructor
    · rintro (hfirst | ⟨a, between, hfirst, before, m, behind, results, reached, rfl, hbefore, hm⟩)
      · exact ⟨[], first, rest, [], gas, rfl, rfl, hfirst⟩
      · refine ⟨first :: before, m, behind, a :: results, reached, rfl, ?_, hm⟩
        rw [inOrder, bind_eq_ok_iff]
        exact ⟨a, between, hfirst, map_eq_ok_iff.mpr ⟨results, hbefore, rfl⟩⟩
    · rintro ⟨before, m, behind, results, reached, hsplit, hbefore, hm⟩
      cases before with
      | nil =>
        obtain ⟨rfl, rfl⟩ := List.cons.inj hsplit
        obtain ⟨-, rfl⟩ := Prod.mk.inj hbefore
        exact .inl hm
      | cons head before =>
        obtain ⟨rfl, rfl⟩ := List.cons.inj hsplit
        rw [inOrder, bind_eq_ok_iff] at hbefore
        obtain ⟨a, between, hhead, hrest⟩ := hbefore
        obtain ⟨others, hothers, rfl⟩ := map_eq_ok_iff.mp hrest
        exact .inr ⟨a, between, hhead, before, m, behind, others, reached, rfl, hothers, hm⟩

end Metered

/-! ## 3. Objects -/

namespace Env

open Metered

/-- What an entry of an object contributes: one pair, those of a branch, or nothing if it is
    absent. -/
def contribution (env : Env) (context : Context) : Entry → Metered (List (String × Value))
  | .field name e => (env.eval e context).map fun result => result.toList.map fun v => (name, v)
  | .merge e => (env.eval e context).bind fun
    | none => pure []
    | some (.mapping pairs) => pure pairs
    | some v => fail (.typeMismatch (.branchNotMapping v.kind))

theorem withField_eq_extend (fields : List (String × Value)) (name : String)
    (result : Option Value) : Value.withField fields name result =
      Dictionary.extend fields (result.toList.map fun v => (name, v)) := by
  cases result <;> rfl

/-- **The entries of an object contribute in order**, and what they contribute is inserted pair
    after pair. -/
theorem evalEntries_eq_inOrder (env : Env) (entries : List Entry) (context : Context)
    (fields : List (String × Value)) :
    env.evalEntries entries context fields =
      (inOrder (entries.map (env.contribution context))).map fun pieces =>
        Dictionary.extend fields pieces.flatten := by
  induction entries generalizing fields with
  | nil => rw [evalEntries]; rfl
  | cons entry rest ih =>
    rw [List.map_cons, inOrder]
    cases entry with
    | field name e =>
      rw [evalEntries, contribution]
      simp only [ih, Metered.map, bind_assoc, pure_bind]
      refine congrArg _ (funext fun result => congrArg _ (funext fun pieces => ?_))
      rw [List.flatten_cons, Dictionary.extend_append, withField_eq_extend]
    | merge e =>
      rw [evalEntries, contribution]
      simp only [Metered.map, bind_assoc]
      refine congrArg _ (funext fun result => ?_)
      rcases result with _ | v
      · exact ih fields
      · cases v with
        | mapping branch =>
          refine (ih (Dictionary.extend fields branch)).trans ?_
          simp only [← Dictionary.extend_append]
          rfl
        | _ => rfl

/-! ## 4. Repetitions -/

/-- **The iterations of a repetition are in order**, each in the context of its element; absent
    results are left out. -/
theorem forEach_eq_inOrder (body : Context → Metered (Option Value)) (context : Context)
    (count i : Nat) (items : List Value) :
    forEach body context count i items =
      (inOrder ((items.zipIdx i).map fun p => body (context.forElement p.1 p.2 count))).map
        List.reduceOption := by
  induction items generalizing i with
  | nil => rfl
  | cons item rest ih =>
    rw [forEach, List.zipIdx_cons, List.map_cons, inOrder]
    simp only [ih, Metered.map, bind_assoc, pure_bind]
    refine congrArg _ (funext fun result => congrArg _ (funext fun others => ?_))
    cases result <;> rfl

end Env

end Stencil
