import Mathlib.Algebra.Order.Ring.Nat
import Stencil.Proofs.Evaluation.InOrder
import Stencil.Proofs.Resolver.Reference
import Stencil.Proofs.Value

/-!
# What a repetition tells its body

The body of a repetition is evaluated once for each element, in a context that binds the element
and its position. The body reads them through keys, so it depends on the resolver what it is told.
This file fixes

* the resolvers that leave the keys of repetitions to the standard ones
  (`Resolver.OverStandard`): layers without such keys, composed over the standard layer;
* what they answer in the context of an element (`Resolver.TellsPosition`), whatever the context
  around it binds;
* that a repetition runs its body in these contexts in order, keeps the values that are there, and
  fails with the first run that fails (`Env.eval_repetition_tells`).
-/

namespace Stencil

/-- A count is the integer it should be, as far as integers of 64 bits go. -/
theorem Value.exists_ofNat_eq {i : Nat} (hi : i < 2 ^ 63) :
    ∃ k : Int64, k.toInt = i ∧ Value.ofNat i = .number (.int k) := by
  have hfits : Number.int64? i = some (Int64.ofInt i) := by
    rw [Number.int64?, Int64.toInt_minValue, Int64.toInt_maxValue]
    exact if_pos (by omega)
  exact ⟨_, Number.toInt_of_int64? hfits, by rw [Value.ofNat, hfits]⟩

/-! ## 1. The keys of repetitions -/

namespace Resolver

/-- The standard layer, behind layers without keys of repetitions. -/
inductive OverStandard : Resolver → Prop where
  | standard : OverStandard standard
  | compose {r base : Resolver}
      (hspaces : ∀ layer ∈ r.layers, ∀ entry ∈ layer, entry.1.space ≠ repeatSpace)
      (hbase : OverStandard base) : OverStandard (r.compose base)

variable {keys : Resolver} {context : Context} {item : Value} {i count : Nat} {name path : String}

/-- A layer answers no key of a namespace that it has no key in. -/
theorem inLayer?_eq_none {layer : Layer} {space : String}
    (h : ∀ entry ∈ layer, entry.1.space ≠ space) : inLayer? ⟨space, name⟩ layer = none := by
  have hnot : ∀ name, ¬layer.Has ⟨space, name⟩ := by
    intro name hhas
    obtain ⟨entry, hentry, hkey⟩ := List.mem_map.mp hhas
    exact h entry hentry (congrArg Key.space hkey)
  exact Layer.inLayer?_eq_none_iff.mpr (not_or.mpr ⟨hnot name, hnot Key.wildcardName⟩)

/-- The standard layer answers all keys of repetitions, by their wildcard. -/
theorem find?_standard_repeat (name : String) :
    standard.find? ⟨repeatSpace, name⟩ = some .ofContext := by
  by_cases hname : Key.wildcardName = name
  · subst hname
    rfl
  · simp [find?, inLayer?, standard, ofHandlers, empty, add, layers, Dictionary.insert,
      Dictionary.get?_cons, Key.wildcard, boolSpace, numberSpace, mathSpace, repeatSpace, hname]

/-- **The keys of repetitions read the context**, past all layers in front. -/
theorem OverStandard.find?_eq (h : keys.OverStandard) (name : String) :
    keys.find? ⟨repeatSpace, name⟩ = some .ofContext := by
  induction h with
  | standard => exact find?_standard_repeat name
  | compose hspaces _ ih =>
    rw [find?, layers_compose, List.findSome?_append]
    rw [List.findSome?_eq_none_iff.mpr fun layer hlayer => inLayer?_eq_none (hspaces layer hlayer)]
    exact ih

/-- A key of repetitions is answered from the binding of the element. -/
theorem OverStandard.resolve_eq (h : keys.OverStandard) (name : String) :
    keys.resolve ⟨repeatSpace, name⟩ (context.forElement item i count) =
      .ok (((Value.repeatBinding item i count).get? name).getD .null) := by
  rw [resolve_of_whole (h.find?_eq name), Handler.ofContext, Context.forElement, Context.get?_bind]
  rfl

/-- **What a body is told**, in its context: the element, what stands at a path in it, and where it
    stands among all elements. Its index is an integer as far as those of 64 bits go. -/
structure TellsPosition (keys : Resolver) (context : Context) (item : Value) (i count : Nat) :
    Prop where
  element : keys.resolve ⟨repeatSpace, "item"⟩ context = .ok item
  inner (path : String) (hpath : path ≠ "") :
    keys.resolve ⟨repeatSpace, "item." ++ path⟩ context = .ok ((item.get? path).getD .null)
  index (hi : i < 2 ^ 63) : ∃ k : Int64, k.toInt = i ∧
    keys.resolve ⟨repeatSpace, "index"⟩ context = .ok (.number (.int k))
  first : keys.resolve ⟨repeatSpace, "first"⟩ context = .ok (.bool (i = 0))
  last : keys.resolve ⟨repeatSpace, "last"⟩ context = .ok (.bool (i + 1 = count))
  odd : keys.resolve ⟨repeatSpace, "odd"⟩ context = .ok (.bool (i % 2 = 1))
  even : keys.resolve ⟨repeatSpace, "even"⟩ context = .ok (.bool (i % 2 = 0))
  other (name : String) (hname : name ≠ "") (hdot : '.' ∉ name.toList)
    (hnew : name ∉ ["item", "index", "first", "last", "odd", "even"]) :
    keys.resolve ⟨repeatSpace, name⟩ context = .ok .null

/-- **The body is told its position**, whatever the context around it binds. -/
theorem OverStandard.tellsPosition (h : keys.OverStandard) (context : Context) (item : Value)
    (i count : Nat) : keys.TellsPosition (context.forElement item i count) item i count where
  element := h.resolve_eq "item"
  inner path hpath := by
    have hname : "item." ++ path = "item" ++ "." ++ path := rfl
    rw [h.resolve_eq, hname, Value.get?_append_dot (by decide) hpath]
    rfl
  index hi := by
    obtain ⟨k, hk, hindex⟩ := Value.exists_ofNat_eq hi
    exact ⟨k, hk, hindex ▸ h.resolve_eq "index"⟩
  first := h.resolve_eq "first"
  last := h.resolve_eq "last"
  odd := h.resolve_eq "odd"
  even := h.resolve_eq "even"
  other name hname hdot hnew := by
    rw [h.resolve_eq, Value.repeatBinding, Value.get?_mapping hname hdot,
      Dictionary.get?_eq_none_iff.mpr]
    · rfl
    · exact hnew

end Resolver

/-! ## 2. The runs of a body -/

/-- The contexts of the elements of a repetition, in order. -/
def Context.forElements (c : Context) (items : List Value) : List Context :=
  items.zipIdx.map fun p => c.forElement p.1 p.2 items.length

@[simp] theorem Context.length_forElements (c : Context) (items : List Value) :
    (c.forElements items).length = items.length := by
  rw [forElements, List.length_map, List.length_zipIdx]

theorem Context.getElem?_forElements (c : Context) {items : List Value} {i : Nat}
    (hi : i < items.length) :
    (c.forElements items)[i]? = some (c.forElement items[i] i items.length) := by
  rw [forElements, List.getElem?_map, List.getElem?_zipIdx, List.getElem?_eq_getElem hi]
  simp

namespace Env

open Metered

variable {env : Env} {context : Context} {limit : Option Nat} {gas between after : Nat}
  {error : EvalError} {source body : Expr} {items : List Value}

/-- An expression uses its own unit of gas first. -/
theorem affords_of_eval {e : Expr} {result : Option Value}
    (h : env.eval e context limit gas = (.ok result, after)) : Affords limit gas := by
  have hstep : ∃ m, env.eval e context = tick.bind fun _ => m := by
    cases e <;> exact ⟨_, by rw [eval]⟩
  obtain ⟨m, hm⟩ := hstep
  rw [hm] at h
  exact (tick_bind_eq_ok_iff.mp h).1

/-- Once its source has given a sequence, a repetition runs its body in the contexts of the
    elements. -/
theorem eval_repetition_of_sequence
    (h : env.eval source context limit (gas + 1) = (.ok (some (.sequence items)), between)) :
    env.eval (.repetition source body) context limit gas =
      ((inOrder ((context.forElements items).map (env.eval body))).map fun results =>
        some (.sequence results.reduceOption)) limit between := by
  have helements : ofOutcome ((some (Value.sequence items)).getD .null).elements = .pure items :=
    rfl
  have hruns : forEach (fun inner => env.eval body inner) context items.length 0 items =
      (inOrder ((context.forElements items).map (env.eval body))).map List.reduceOption := by
    rw [forEach_eq_inOrder, Context.forElements, List.map_map]
    rfl
  rw [eval, tick_bind_of_affords (affords_of_eval h).of_succ, bind_of_ok h, helements,
    Metered.pure_bind, hruns]
  simp only [Metered.map, Metered.bind_assoc, Metered.pure_bind]

/-- The runs in front of an element that fails are those of the elements in front of it. -/
theorem exists_failing_run :
    inOrder ((context.forElements items).map (env.eval body)) limit between =
        (.error error, after) ↔
      ∃ i, ∃ hi : i < items.length, ∃ results reached,
        inOrder (((context.forElements items).take i).map (env.eval body)) limit between =
          (.ok results, reached) ∧
        env.eval body (context.forElement items[i] i items.length) limit reached =
          (.error error, after) := by
  have hat : ∀ i, (hi : i < items.length) → ((context.forElements items).map (env.eval body))[i]? =
      some (env.eval body (context.forElement items[i] i items.length)) := by
    intro i hi
    rw [List.getElem?_map, context.getElem?_forElements hi, Option.map_some]
  rw [inOrder_eq_error_iff]
  constructor
  · rintro ⟨before, m, behind, results, reached, hsplit, hbefore, hm⟩
    have hi : before.length < items.length := by
      have hlength := congrArg List.length hsplit
      simp only [List.length_map, Context.length_forElements, List.length_append,
        List.length_cons] at hlength
      omega
    have hfails := hat before.length hi
    rw [hsplit, List.getElem?_append_right (Nat.le_refl _), Nat.sub_self,
      List.getElem?_cons_zero] at hfails
    refine ⟨before.length, hi, results, reached, ?_, Option.some.inj hfails ▸ hm⟩
    rw [List.map_take, hsplit, List.take_left]
    exact hbefore
  · rintro ⟨i, hi, results, reached, hbefore, hm⟩
    have hsplit := List.take_append_drop i ((context.forElements items).map (env.eval body))
    rw [List.drop_eq_getElem?_toList_append, hat i hi] at hsplit
    exact ⟨_, _, _, results, reached, hsplit.symm, List.map_take ▸ hbefore, hm⟩

/-- **A repetition tells its body where it is**, past any layers without keys of repetitions over
    the standard keys, and in any context, also in one that binds the element of a repetition
    around it. Once the source has given a sequence, of any length, the body is run in the contexts
    of its elements from the first to the last, and the values that are there are kept in that
    order. The first run that fails fails the repetition. -/
theorem eval_repetition_tells (env : Env) (hkeys : env.keys.OverStandard) (source body : Expr)
    (context : Context) (limit : Option Nat) (gas between : Nat) (items : List Value)
    (hsource : env.eval source context limit (gas + 1) =
      (.ok (some (.sequence items)), between)) :
    (∀ (i : Nat) (hi : i < items.length), (context.forElements items)[i]? =
        some (context.forElement items[i] i items.length) ∧
      env.keys.TellsPosition (context.forElement items[i] i items.length) items[i] i
        items.length) ∧
    (∀ (result : Option Value) (after : Nat),
      env.eval (.repetition source body) context limit gas = (.ok result, after) ↔
        ∃ results, inOrder ((context.forElements items).map (env.eval body)) limit between =
            (.ok results, after) ∧ result = some (.sequence results.reduceOption)) ∧
    (∀ (error : EvalError) (after : Nat),
      env.eval (.repetition source body) context limit gas = (.error error, after) ↔
        ∃ i, ∃ hi : i < items.length, ∃ results reached,
          inOrder (((context.forElements items).take i).map (env.eval body)) limit between =
            (.ok results, reached) ∧
          env.eval body (context.forElement items[i] i items.length) limit reached =
            (.error error, after)) := by
  have hrun : env.eval (.repetition source body) context limit gas =
      ((inOrder ((context.forElements items).map (env.eval body))).map fun results =>
        some (.sequence results.reduceOption)) limit between :=
    eval_repetition_of_sequence hsource
  refine ⟨fun i hi => ⟨context.getElem?_forElements hi, hkeys.tellsPosition ..⟩, ?_, ?_⟩
  · intro result after
    rw [hrun, map_eq_ok_iff]
    simp only [eq_comm]
  · intro error after
    rw [hrun, map_eq_error_iff, exists_failing_run]

/-- A repetition within another one, behind a layer of its own: the body, which has a value for
    the last element alone, is told of the inner elements. -/
theorem eval_repetition_tells_nested :
    let front := Resolver.ofHandlers [(Key.wildcard "user", .ofContext)]
    let env : Env := ⟨front.compose .standard, .standard⟩
    let tags : List Value := [.text "a", .mapping [("name", .text "b")]]
    let outer := Context.empty.bind "user" (.mapping [("tags", .sequence tags)])
    let context := outer.forElement (.text "outer") 4 9
    let source : Expr := .call ⟨⟨"user", "tags"⟩, []⟩
    let ask (name : String) : Expr := .call ⟨⟨"repeat", name⟩, []⟩
    let body : Expr := .conditional [.mk (some (ask "last")) (ask "item.name")]
    env.keys.OverStandard ∧
      env.eval source context none 1 = (.ok (some (.sequence tags)), 2) ∧
      env.keys.TellsPosition (context.forElement (.text "a") 0 2) (.text "a") 0 2 ∧
      env.eval (.repetition source body) context none 0 =
        (.ok (some (.sequence [.text "b"])), 7) := by
  intro front env tags outer context source ask body
  have hkeys : env.keys.OverStandard := .compose (by decide +kernel) .standard
  have hsource : env.eval source context none 1 = (.ok (some (.sequence tags)), 2) := by
    -- the recursion over an expression does not unfold behind its name
    subst body ask source context outer tags env front
    rfl
  have hruns : inOrder ((context.forElements tags).map (env.eval body)) none 2 =
      (.ok [none, some (.text "b")], 7) := by
    subst body ask source context outer tags env front
    rfl
  obtain ⟨htells, hvalue, -⟩ :=
    eval_repetition_tells env hkeys source body context none 0 2 tags hsource
  exact ⟨hkeys, hsource, (htells 0 (by decide)).2, (hvalue _ 7).mpr ⟨_, hruns, rfl⟩⟩

end Env

end Stencil
