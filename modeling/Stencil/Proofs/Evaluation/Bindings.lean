import Stencil.Proofs.Evaluation.InOrder
import Stencil.Proofs.Filter
import Stencil.Proofs.Gas
import Stencil.Proofs.Resolver

/-!
# What an evaluation sees of a context

A context is a chain of frames, but an evaluation only looks names up in it. This file fixes

* contexts in which names look up the same (`Context.SameBindings`), and those in which all names do
  but one (`Context.SameBindingsBut`); binding that one makes them the same;
* the environments whose handlers and filters do nothing but look names up (`Env.ReadsBindings`);
  the standard filters are such, and so are the standard keys;
* that for them a context is no more than what its names look up as, and that a repetition hides
  the one around it (`Env.evaluate_eq_of_bindings`).
-/

namespace Stencil

/-! ## 1. Contexts -/

namespace Context

/-- Every name looks up the same in both contexts, whatever their frames. -/
def SameBindings (c c' : Context) : Prop :=
  ∀ name, c.get? name = c'.get? name

/-- Every name but one looks up the same in both contexts. -/
def SameBindingsBut (hidden : String) (c c' : Context) : Prop :=
  ∀ name, name ≠ hidden → c.get? name = c'.get? name

variable {c c' : Context}

theorem SameBindings.but (h : c.SameBindings c') (hidden : String) :
    c.SameBindingsBut hidden c' :=
  fun name _ => h name

/-- **Binding a name hides what it was before.** -/
theorem SameBindingsBut.bind {name : String} (h : c.SameBindingsBut name c') (v : Value) :
    (c.bind name v).SameBindings (c'.bind name v) := by
  intro other
  rw [get?_bind, get?_bind]
  split
  · rfl
  · next hother => exact h other (Ne.symm hother)

theorem SameBindingsBut.forElement (h : c.SameBindingsBut Resolver.repeatSpace c') (item : Value)
    (i count : Nat) : (c.forElement item i count).SameBindings (c'.forElement item i count) :=
  h.bind _

end Context

/-! ## 2. What reads only bindings -/

/-- A handler that reads the context by looking names up. -/
def Handler.ReadsBindings (handler : Handler) : Prop :=
  ∀ c c' : Context, c.SameBindings c' → ∀ key, handler key c = handler key c'

/-- A filter that, with these keys, reads the context by looking names up. -/
def Filter.ReadsBindings (filter : Filter) (keys : Resolver) : Prop :=
  ∀ c c' : Context, c.SameBindings c' → ∀ v args, filter v args ⟨keys, c⟩ = filter v args ⟨keys, c'⟩

theorem Handler.readsBindings_ofContext : ReadsBindings ofContext := by
  intro c c' h key
  unfold ofContext
  rw [h key.space]

theorem Resolver.readsBindings_of_mem_standard {handler : Handler}
    (h : handler ∈ standard.handlers) : handler.ReadsBindings := by
  rcases mem_handlers_standard h with ⟨v, -, rfl⟩ | rfl | rfl
  · exact fun _ _ _ _ => rfl
  · exact fun _ _ _ _ => rfl
  · exact Handler.readsBindings_ofContext

namespace Env

/-- The handlers and the filters of an environment read the context by looking names up. -/
structure ReadsBindings (env : Env) : Prop where
  handlers : ∀ handler ∈ env.keys.handlers, handler.ReadsBindings
  filters : ∀ entry ∈ env.filters.filters, entry.2.ReadsBindings env.keys

/-- **The standard filters look at a context through the keys alone.** -/
theorem readsBindings_standard {keys : Resolver}
    (h : ∀ handler ∈ keys.handlers, handler.ReadsBindings) :
    ReadsBindings ⟨keys, .standard⟩ where
  handlers := h
  filters := by
    intro entry hentry c c' hc v args
    rcases Registry.plain_or_cond_of_mem hentry with hplain | rfl
    · exact hplain.scope v args _ _
    · refine Filter.Comparison.cond_congr fun key _ => ⟨rfl, ?_⟩
      exact Resolver.resolve_congr_context (fun handler hmem => h handler hmem c c' hc) key

variable {env : Env} {c c' : Context}

theorem ReadsBindings.evalCall (h : env.ReadsBindings) (hc : c.SameBindings c') (call : Call) :
    env.evalCall c call = env.evalCall c' call := by
  have hkey : env.keys.resolve call.key c = env.keys.resolve call.key c' :=
    Resolver.resolve_congr_context (fun handler hmem => h.handlers handler hmem c c' hc) call.key
  unfold Env.evalCall
  rw [hkey]
  split
  · rfl
  · refine Registry.applyAll_congr fun f _ v => Registry.apply_congr fun filter hfind => ?_
    obtain ⟨key, -, hmem⟩ := Registry.mem_of_find? hfind
    exact h.filters _ hmem c c' hc v f.args

theorem ReadsBindings.agree (h : env.ReadsBindings) (calls : List Call) :
    Agree env env Context.SameBindings (fun _ => True) calls where
  forElement hc item i count := (hc.but _).forElement item i count
  evalCall hc call _ := h.evalCall hc call
  reason_of_call _ _ _ _ _ := trivial
  intrinsic _ := trivial

end Env

/-! ## 3. Runs from where the limit is not exceeded -/

namespace Metered

variable {α β : Type} {m m' : Metered α}

/-- Two computations come to the same, wherever the limit is not yet exceeded. -/
def SameWithin (m m' : Metered α) : Prop :=
  ∀ limit gas, (∀ most ∈ limit, gas ≤ most) → m limit gas = m' limit gas

/-- Computations that come to the same without a limit do so under every limit. -/
theorem Alike.sameWithin {reason : EvalError → Prop} (h : Alike reason m m)
    (h' : Alike reason m' m') {start : Nat} (hrun : m none start = m' none start) :
    SameWithin m m' := by
  obtain ⟨o, n, hfree⟩ := h.uniform
  obtain ⟨o', n', hfree'⟩ := h'.uniform
  have hsame : ∀ gas, m none gas = m' none gas := by
    rw [hfree, hfree'] at hrun
    obtain ⟨rfl, hn⟩ := Prod.mk.inj hrun
    obtain rfl := Nat.add_left_cancel hn
    exact fun gas => (hfree gas).trans (hfree' gas).symm
  intro limit gas hgas
  cases limit with
  | none => exact hsame gas
  | some most =>
    have hle : gas ≤ most := hgas most rfl
    rw [h.truncates.cuts most gas hle, h'.truncates.cuts most gas hle, hsame gas]

theorem SameWithin.bind {f f' : α → Metered β} (h : SameWithin m m') (hf : ∀ a, f a = f' a) :
    SameWithin (m.bind f) (m'.bind f') := by
  intro limit gas hgas
  rw [funext hf]
  unfold Metered.bind
  rw [h limit gas hgas]

/-- A unit of gas leaves the limit not exceeded, or ends the computation. -/
theorem SameWithin.tick_bind (h : SameWithin m m') :
    (tick.bind fun _ => m) = tick.bind fun _ => m' := by
  funext limit gas
  by_cases hleft : Affords limit gas
  · rw [tick_bind_of_affords hleft, tick_bind_of_affords hleft]
    exact h limit (gas + 1) hleft
  · rw [tick_bind_of_not_affords hleft, tick_bind_of_not_affords hleft]

end Metered

/-! ## 4. Evaluation -/

namespace Env

open Metered

variable {env : Env} {c c' : Context}

theorem evaluate_eq_of_sameBindings (h : env.ReadsBindings) (hc : c.SameBindings c')
    (limit : Option Nat) (e : Expr) : env.evaluate limit e c = env.evaluate limit e c' := by
  have hrun : env.evalDocument e c = env.evalDocument e c' := ((h.agree e.calls).evalDocument hc).eq
  rw [evaluate_eq, evaluate_eq, hrun]

/-- What gives a value under some limit gives it without a limit. -/
theorem eval_of_evaluate {limit : Option Nat} {e : Expr} {v : Value} {n : Nat}
    (h : env.evaluate limit e c = (.ok v, n)) : env.eval e c none 0 = (.ok (some v), n) := by
  have hfree : env.evalDocument e c none 0 = (.ok v, n) := by
    cases limit with
    | none => exact h
    | some most =>
      have hcut := (env.truncates_evalDocument e c).cuts most 0 (Nat.zero_le most)
      exact eq_of_cut_eq_ok (hcut.symm.trans h)
  obtain ⟨result, between, hrun, hresult⟩ := bind_eq_ok_iff.mp hfree
  cases result with
  | none => cases hresult
  | some value =>
    obtain ⟨hvalue, rfl⟩ := Prod.mk.inj hresult
    rw [hrun, Except.ok.inj hvalue]

/-- **A repetition hides the one around it.** Its source is all that could see the binding of the
    outer element. -/
theorem eval_repetition_eq (h : env.ReadsBindings) {source body : Expr}
    (hc : c.SameBindingsBut Resolver.repeatSpace c')
    (hsource : env.eval source c none 0 = env.eval source c' none 0) :
    env.eval (.repetition source body) c = env.eval (.repetition source body) c' := by
  have hfrom : SameWithin (env.eval source c) (env.eval source c') :=
    ((Agree.refl env _).eval rfl).sameWithin ((Agree.refl env _).eval rfl) hsource
  -- whatever the elements are, the body sees contexts in which every name looks up the same
  have hbody : ∀ items : List Value,
      forEach (fun inner => env.eval body inner) c items.length 0 items =
        forEach (fun inner => env.eval body inner) c' items.length 0 items := fun items =>
    (Alike.forEach (fun item i => (h.agree body.calls).eval (hc.forElement item i _)) 0 items).eq
  rw [eval, eval]
  refine (hfrom.bind fun result => ?_).tick_bind
  simp only [hbody]

/-- **A context is what its names look up as, and a repetition hides the one around it.** Let the
    handlers and the filters read the context by looking names up. In two contexts in which every
    name looks up the same, whatever their frames, an expression has one outcome, for the same gas.
    Where only the binding of a repetition differs, a repetition within has one outcome for the
    same gas too, if its source gives the same elements for the same gas: its body cannot see the
    element of the repetition around it. -/
theorem evaluate_eq_of_bindings (h : env.ReadsBindings) :
    (∀ (c c' : Context), c.SameBindings c' → ∀ (limit : Option Nat) (e : Expr),
      env.evaluate limit e c = env.evaluate limit e c') ∧
    ∀ (c c' : Context), c.SameBindingsBut Resolver.repeatSpace c' →
      ∀ (source body : Expr) (sourceLimit : Option Nat) (items : List Value) (n : Nat),
        env.evaluate sourceLimit source c = (.ok (.sequence items), n) →
        env.evaluate sourceLimit source c' = (.ok (.sequence items), n) →
        env.eval (.repetition source body) c = env.eval (.repetition source body) c' ∧
          ∀ limit, env.evaluate limit (.repetition source body) c =
            env.evaluate limit (.repetition source body) c' := by
  refine ⟨fun c c' hc limit e => evaluate_eq_of_sameBindings h hc limit e, ?_⟩
  intro c c' hc source body sourceLimit items n hsource hsource'
  have hruns : env.eval source c none 0 = env.eval source c' none 0 := by
    rw [eval_of_evaluate hsource, eval_of_evaluate hsource']
  have hrepetition :
      env.eval (.repetition source body) c = env.eval (.repetition source body) c' :=
    eval_repetition_eq h hc hruns
  refine ⟨hrepetition, fun limit => ?_⟩
  rw [evaluate_eq, evaluate_eq, evalDocument, evalDocument, hrepetition]

/-- Frames in another order make no difference, and the inner one of two repetitions goes on behind
    an element of the outer one as it does without it. -/
theorem evaluate_eq_of_bindings_nested :
    let env : Env := ⟨Resolver.standard.add (Key.wildcard "user") Handler.ofContext, .standard⟩
    let tags : List Value := [.text "a", .text "b"]
    let user : Value := .mapping [("tags", .sequence tags)]
    let c := (Context.empty.bind "user" user).bind "x" .null
    let c' := Context.ofBindings [("x", .null), ("user", user)]
    let source : Expr := .call ⟨⟨"user", "tags"⟩, []⟩
    let item : Expr := .call ⟨⟨"repeat", "item"⟩, []⟩
    let inner : Expr := .repetition source item
    env.evaluate (some 9) (.repetition source inner) c =
        env.evaluate (some 9) (.repetition source inner) c' ∧
      env.evaluate (some 9) inner (c.forElement (.text "outer") 0 1) =
        env.evaluate (some 9) inner c := by
  intro env tags user c c' source item inner
  have henv : env.ReadsBindings := by
    refine readsBindings_standard fun handler hmem => ?_
    rcases Resolver.mem_handlers_add hmem with hstandard | rfl
    · exact Resolver.readsBindings_of_mem_standard hstandard
    · exact Handler.readsBindings_ofContext
  have hsame : c.SameBindings c' := by
    intro name
    have hframe : c'.get? name = (Dictionary.get? [("x", .null), ("user", user)] name).or none :=
      Context.get?_extend .empty _ name
    rw [hframe, Context.get?_bind, Context.get?_bind, Dictionary.get?_cons, Dictionary.get?_cons]
    split
    · rfl
    · split <;> rfl
  have hbut : (c.forElement (.text "outer") 0 1).SameBindingsBut Resolver.repeatSpace c := by
    intro name hname
    rw [Context.forElement, Context.get?_bind, if_neg (Ne.symm hname)]
  have houter : env.evaluate none source (c.forElement (.text "outer") 0 1) =
      (.ok (.sequence tags), 1) := by
    -- the recursion over an expression does not unfold behind its name
    subst inner item source c' c user tags env
    rfl
  have hplain : env.evaluate none source c = (.ok (.sequence tags), 1) := by
    subst inner item source c' c user tags env
    rfl
  obtain ⟨hwhole, hinner⟩ := evaluate_eq_of_bindings henv
  obtain ⟨-, hevaluate⟩ := hinner _ c hbut source item none tags 1 houter hplain
  exact ⟨hwhole c c' hsame (some 9) _, hevaluate (some 9)⟩

end Env

end Stencil
