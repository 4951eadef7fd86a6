import Stencil.Proofs.Dictionary
import Stencil.Proofs.Evaluation.UniqueNames

/-!
# What an object is evaluated to

The entries of an object contribute pairs one after the other, and later pairs take the place of
earlier ones of the same name. This file fixes

* why an entry fails (`Env.Fails`): its expression fails, or its branch is there and no mapping;
* what an object comes to (`Env.merged_of_eval_tree`): every name that is contributed stands once,
  where it first occurs, with what was contributed last;
* that an object fails with its first entry that fails (`Env.eval_tree_eq_error_iff`).

With what is known of names in values (`Env.KeepsDistinct`), no value of a document loses a field or
has one twice (`Env.eval_tree_merges`).
-/

namespace Stencil.Env

open Metered

variable {env : Env} {context : Context} {limit : Option Nat} {gas after : Nat} {error : EvalError}
  {entry : Entry} {entries : List Entry}

/-! ## 1. Entries that fail -/

/-- Why an entry fails, from a count of gas to another one. -/
inductive Fails (env : Env) (context : Context) (limit : Option Nat) :
    Entry → Nat → EvalError → Nat → Prop where
  | field {name : String} {e : Expr} {gas after : Nat} {error : EvalError}
      (h : env.eval e context limit gas = (.error error, after)) :
      Fails env context limit (.field name e) gas error after
  | merge {e : Expr} {gas after : Nat} {error : EvalError}
      (h : env.eval e context limit gas = (.error error, after)) :
      Fails env context limit (.merge e) gas error after
  | notMapping {e : Expr} {gas after : Nat} {v : Value}
      (h : env.eval e context limit gas = (.ok (some v), after)) (hkind : v.kind ≠ .mapping) :
      Fails env context limit (.merge e) gas (.typeMismatch (.branchNotMapping v.kind)) after

/-- **An entry contributes an error** exactly if it fails. -/
theorem contribution_eq_error_iff :
    env.contribution context entry limit gas = (.error error, after) ↔
      env.Fails context limit entry gas error after := by
  cases entry with
  | field name e =>
    rw [contribution, map_eq_error_iff]
    refine ⟨.field, fun h => ?_⟩
    cases h with
    | field h => exact h
  | merge e =>
    rw [contribution, bind_eq_error_iff]
    constructor
    · rintro (h | ⟨result, between, hresult, herror⟩)
      · exact .merge h
      · split at herror
        · cases herror
        · cases herror
        · next v hmapping =>
          obtain ⟨hfail, rfl⟩ := Prod.mk.inj herror
          obtain rfl := Except.error.inj hfail
          refine .notMapping hresult fun hkind => ?_
          cases v with
          | mapping fields => exact hmapping fields rfl
          | _ => cases hkind
    · intro h
      cases h with
      | merge h => exact .inl h
      | @notMapping _ _ _ v h hkind =>
        refine .inr ⟨_, _, h, ?_⟩
        cases v with
        | mapping fields => exact absurd rfl hkind
        | _ => rfl

/-! ## 2. Objects -/

theorem eval_tree_eq (env : Env) (entries : List Entry) (context : Context) :
    env.eval (.tree entries) context = tick.bind fun _ =>
      (inOrder (entries.map (env.contribution context))).map fun pieces =>
        some (.mapping (Dictionary.ofList pieces.flatten)) := by
  rw [eval, evalEntries_eq_inOrder]
  simp only [Metered.map, Metered.bind_assoc, Metered.pure_bind]
  rfl

/-- **An object comes to what its entries contribute**, each name once. -/
theorem merged_of_eval_tree {result : Option Value}
    (h : env.eval (.tree entries) context limit gas = (.ok result, after)) :
    ∃ pieces fields,
      inOrder (entries.map (env.contribution context)) limit (gas + 1) = (.ok pieces, after) ∧
      result = some (.mapping fields) ∧ Dictionary.Merged pieces.flatten fields := by
  rw [eval_tree_eq, tick_bind_eq_ok_iff] at h
  obtain ⟨pieces, hpieces, rfl⟩ := map_eq_ok_iff.mp h.2
  exact ⟨pieces, _, hpieces, rfl, Dictionary.merged_ofList _⟩

/-- **An object fails with its first entry that fails**, unless there is no gas to enter it. -/
theorem eval_tree_eq_error_iff :
    env.eval (.tree entries) context limit gas = (.error error, after) ↔
      ¬Affords limit gas ∧ error = .gasExhausted ∧ after = gas + 1 ∨
        Affords limit gas ∧ ∃ before entry behind pieces between,
          entries = before ++ entry :: behind ∧
          inOrder (before.map (env.contribution context)) limit (gas + 1) = (.ok pieces, between) ∧
          env.Fails context limit entry between error after := by
  rw [eval_tree_eq, tick_bind_eq_error_iff, map_eq_error_iff, inOrder_eq_error_iff]
  refine or_congr_right (and_congr_right fun _ => ?_)
  constructor
  · rintro ⟨runs, m, later, pieces, between, hsplit, hruns, hm⟩
    obtain ⟨before, rest, rfl, rfl, hrest⟩ := List.map_eq_append_iff.mp hsplit
    obtain ⟨entry, behind, rfl, rfl, -⟩ := List.map_eq_cons_iff.mp hrest
    exact ⟨before, entry, behind, pieces, between, rfl, hruns, contribution_eq_error_iff.mp hm⟩
  · rintro ⟨before, entry, behind, pieces, between, rfl, hruns, hentry⟩
    exact ⟨_, _, _, pieces, between, List.map_append, hruns, contribution_eq_error_iff.mpr hentry⟩

/-- **Objects are merged in order**, without a field lost or doubled. The value of an object has
    every name that its entries contribute, once: in the order of first occurrences, and with what
    was contributed last. An object fails, under any limit, with the first of its entries that
    fails or is a branch without a mapping. And where handlers and filters give only values with
    distinct names, in the contexts that come up, every value of a document is one. -/
theorem eval_tree_merges (env : Env) :
    (∀ (entries : List Entry) (context : Context) (limit : Option Nat) (gas after : Nat)
      (result : Option Value), env.eval (.tree entries) context limit gas = (.ok result, after) →
        ∃ pieces fields,
          inOrder (entries.map (env.contribution context)) limit (gas + 1) = (.ok pieces, after) ∧
          result = some (.mapping fields) ∧ Dictionary.Merged pieces.flatten fields) ∧
    (∀ (entries : List Entry) (context : Context) (limit : Option Nat) (gas after : Nat)
      (error : EvalError), env.eval (.tree entries) context limit gas = (.error error, after) ↔
        ¬Affords limit gas ∧ error = .gasExhausted ∧ after = gas + 1 ∨
          Affords limit gas ∧ ∃ before entry behind pieces between,
            entries = before ++ entry :: behind ∧
            inOrder (before.map (env.contribution context)) limit (gas + 1) =
              (.ok pieces, between) ∧
            env.Fails context limit entry between error after) ∧
    (∀ (good : Context → Prop), env.KeepsDistinct good →
      ∀ (options : ParseOptions) (document : Json) (e : Expr), document.isDistinct = true →
        (Parsed.ofDocument options document).toExcept = .ok e →
        ∀ (context : Context) (limit : Option Nat) (v : Value) (n : Nat), good context →
          env.evaluate limit e context = (.ok v, n) → v.Distinct) := by
  refine ⟨fun _ _ _ _ _ _ h => merged_of_eval_tree h, fun _ _ _ _ _ _ => eval_tree_eq_error_iff, ?_⟩
  intro good hkeeps options document e hdistinct hparse context limit v n hgood h
  have hwf : e.Wf := Parsed.wf_of_toExcept hdistinct hparse
  exact hkeeps.evalDocument hwf hgood limit 0 v n h

/-- A branch takes the place of one field, and one field takes the place of a branch; a branch that
    is a number ends the object. -/
theorem eval_tree_merges_overwritten :
    let env : Env := ⟨.standard, .standard⟩
    let document : Json := .object [("name", .text "first"), ("@container", .object
      [("city", .text "here"), ("name", .text "second")]), ("city", .text "there")]
    let branch : Expr := .tree [.field "city" (.text "here"), .field "name" (.text "second")]
    let entries : List Entry :=
      [.field "name" (.text "first"), .merge branch, .field "city" (.text "there")]
    let pairs : List (String × Value) := [("name", .text "first"), ("city", .text "here"),
      ("name", .text "second"), ("city", .text "there")]
    let fields : List (String × Value) := [("name", .text "second"), ("city", .text "there")]
    let wrong : Entry := .merge (.const (.number (.int 7)))
    (Parsed.ofDocument .default document).toExcept = .ok (.tree entries) ∧
      env.evaluate (some 6) (.tree entries) .empty = (.ok (.mapping fields), 6) ∧
      Dictionary.Merged pairs fields ∧ (Value.mapping fields).Distinct ∧
      env.eval (.tree (wrong :: entries)) .empty none 0 =
        (.error (.typeMismatch (.branchNotMapping .number)), 2) := by
  intro env document branch entries pairs fields wrong
  have hdistinct : document.isDistinct = true := by decide +kernel
  have hparse : (Parsed.ofDocument .default document).toExcept = .ok (.tree entries) := by rfl
  have hvalue : env.evaluate (some 6) (.tree entries) .empty = (.ok (.mapping fields), 6) := by
    subst wrong fields pairs entries branch document env
    rfl
  have hkeeps : env.KeepsDistinct Context.Distinct := keepsDistinct_standard
    fun handler hmem key c hc => Resolver.gives_of_mem_standard hmem key hc
  have hrun : env.eval (.tree entries) .empty (some 6) 0 = (.ok (some (.mapping fields)), 6) := by
    subst wrong fields pairs entries branch document env
    rfl
  have hwrong : env.Fails .empty none wrong 1 (.typeMismatch (.branchNotMapping .number)) 2 := by
    refine .notMapping (v := .number (.int 7)) ?_ nofun
    subst wrong fields pairs entries branch document env
    rfl
  obtain ⟨hmerged, hfails, hnames⟩ := eval_tree_merges env
  obtain ⟨pieces, same, hpieces, hsame, hpairs⟩ := hmerged entries .empty (some 6) 0 6 _ hrun
  obtain rfl := Value.mapping.inj (Option.some.inj hsame)
  have hcontributed : pieces.flatten = pairs := by
    rw [← Except.ok.inj (Prod.mk.inj hpieces).1]
    rfl
  rw [hcontributed] at hpairs
  refine ⟨hparse, hvalue, hpairs, ?_, ?_⟩
  · exact hnames _ hkeeps .default document _ hdistinct hparse .empty _ _ 6
      Context.distinct_empty hvalue
  · refine (hfails _ .empty none 0 2 _).mpr (.inr ⟨nofun, ?_⟩)
    exact ⟨[], wrong, entries, [], 1, rfl, rfl, hwrong⟩

end Stencil.Env
