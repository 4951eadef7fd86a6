import Stencil.Proofs.Document.WellFormed
import Stencil.Proofs.Evaluation.InOrder
import Stencil.Proofs.Filter
import Stencil.Proofs.Resolver
import Stencil.Proofs.Value

/-!
# Values with distinct names

The mappings that an evaluation builds have each name once. Values also come from handlers and
filters, and go to them, in contexts that grow by what repetitions bind; so this is a law of the
environment. This file fixes

* what all results of a computation are like (`Outcome.Gives`, `Metered.Gives`), and that this goes
  through every way of putting computations together;
* the standard filters: each gives a scalar or its own input (`Registry.modest_of_mem_standard`);
* when handlers and filters give values with distinct names (`Env.KeepsDistinct`), which those of
  the standard registry and the standard keys do wherever the bindings of the context are such
  (`Env.keepsDistinct_standard`);
* that then every value of an expression from a document is such (`Env.KeepsDistinct.eval`), by one
  induction on the expression.
-/

namespace Stencil

/-! ## 1. What results are like -/

namespace Outcome

variable {α β : Type} {kind : α → Prop} {kind' : β → Prop}

/-- If there is a result, it is of a kind. -/
def Gives (kind : α → Prop) (o : Outcome α) : Prop :=
  ∀ a, o = .ok a → kind a

theorem gives_ok {a : α} (h : kind a) : Gives kind (.ok a) :=
  fun _ heq => Except.ok.inj heq ▸ h

theorem gives_error (error : EvalError) : Gives kind (.error error) := nofun

theorem gives_map {f : α → β} (h : ∀ a, kind' (f a)) (o : Outcome α) : Gives kind' (o.map f) := by
  cases o with
  | error error => exact gives_error error
  | ok a => exact gives_ok (h a)

end Outcome

namespace Metered

variable {α β : Type} {kind : α → Prop} {kind' : β → Prop} {m : Metered α}

/-- Every result is of a kind, whatever the limit is and wherever the count stands. -/
def Gives (kind : α → Prop) (m : Metered α) : Prop :=
  ∀ limit gas a after, m limit gas = (.ok a, after) → kind a

theorem gives_pure {a : α} (h : kind a) : (pure a).Gives kind := by
  intro _ _ _ _ heq
  exact Except.ok.inj (Prod.mk.inj heq).1 ▸ h

theorem gives_ofOutcome {o : Outcome α} (h : o.Gives kind) : (ofOutcome o).Gives kind :=
  fun _ _ a _ heq => h a (Prod.mk.inj heq).1

theorem Gives.bind {f : α → Metered β} (h : m.Gives kind) (hf : ∀ a, kind a → (f a).Gives kind') :
    (m.bind f).Gives kind' := by
  intro limit gas b after heq
  obtain ⟨a, between, hfirst, hsecond⟩ := bind_eq_ok_iff.mp heq
  exact hf a (h limit gas a between hfirst) limit between b after hsecond

theorem Gives.map {f : α → β} (h : m.Gives kind) (hf : ∀ a, kind a → kind' (f a)) :
    (m.map f).Gives kind' :=
  h.bind fun a ha => gives_pure (hf a ha)

/-- Behind a computation of which nothing is known. -/
theorem gives_bind {f : α → Metered β} (hf : ∀ a, (f a).Gives kind') :
    (m.bind f).Gives kind' := by
  have hany : m.Gives fun _ => True := fun _ _ _ _ _ => trivial
  exact hany.bind fun a _ => hf a

theorem gives_inOrder {ms : List (Metered α)} (h : ∀ m ∈ ms, m.Gives kind) :
    (inOrder ms).Gives fun results => ∀ a ∈ results, kind a := by
  induction ms with
  | nil => exact gives_pure (by simp)
  | cons first rest ih =>
    obtain ⟨hfirst, hrest⟩ := List.forall_mem_cons.mp h
    exact hfirst.bind fun a ha => (ih hrest).map fun others hothers =>
      List.forall_mem_cons.mpr ⟨ha, hothers⟩

/-- What a body gives for elements, wherever they stand. -/
theorem gives_forEach {body : Context → Metered (Option Value)} {context : Context} {count i : Nat}
    {items : List Value} {kind : Value → Prop} (h : ∀ item ∈ items, ∀ i,
      (body (context.forElement item i count)).Gives fun result => ∀ v ∈ result, kind v) :
    (forEach body context count i items).Gives fun values => ∀ v ∈ values, kind v := by
  rw [Env.forEach_eq_inOrder]
  have hruns : ∀ m ∈ (items.zipIdx i).map fun p => body (context.forElement p.1 p.2 count),
      m.Gives fun result => ∀ v ∈ result, kind v :=
    List.forall_mem_map.mpr fun p hp => h p.1 (List.fst_mem_of_mem_zipIdx hp) p.2
  refine (gives_inOrder hruns).map fun results hresults v hv => ?_
  exact hresults _ (List.reduceOption_mem_iff.mp hv) v rfl

end Metered

/-! ## 2. The standard filters -/

namespace Filter

open Outcome

/-- A filter whose results are scalars, or its input. -/
def Modest (filter : Filter) : Prop :=
  ∀ v args scope, (filter v args scope).Gives fun w => w.IsScalar ∨ w = v

theorem Modest.of_gives {filter : Filter}
    (h : ∀ v args scope, (filter v args scope).Gives Value.IsScalar) : filter.Modest :=
  fun v args scope w hw => .inl (h v args scope w hw)

namespace Number

theorem gives_finite (filter : String) (x : Float) : (finite filter x).Gives Value.IsScalar := by
  unfold finite
  split
  · exact gives_ok (.number _)
  · exact gives_error _

theorem gives_combine (filter : String) (exactOp : Int → Int → Int)
    (floatOp : Float → Float → Float) (a b : Stencil.Number) :
    (combine filter exactOp floatOp a b).Gives Value.IsScalar := by
  unfold combine
  split
  · split
    · exact gives_ok (.number _)
    · exact gives_finite _ _
  · exact gives_finite _ _

theorem modest_arithmetic (filter : String) (exactOp : Int → Int → Int)
    (floatOp : Float → Float → Float) : Modest (arithmetic filter exactOp floatOp) := by
  refine .of_gives fun v args scope => ?_
  unfold arithmetic
  split
  · exact gives_error _
  · exact gives_ok .null
  · split
    · exact gives_error _
    · exact gives_combine _ _ _ _ _

theorem modest_divide : Modest divide := by
  refine .of_gives fun v args scope => ?_
  unfold divide
  split
  · exact gives_error _
  · exact gives_ok .null
  · split
    · exact gives_error _
    · split
      · exact gives_error _
      · exact gives_finite _ _

theorem modest_round : Modest round := by
  refine .of_gives fun v args scope => ?_
  unfold round
  split
  · exact gives_error _
  · exact gives_ok .null
  · split
    · exact gives_error _
    · split
      · exact gives_ok (.number _)
      · exact gives_finite _ _

theorem modest_toNumber : Modest toNumber := by
  refine .of_gives fun v args scope => gives_map (fun n => ?_) _
  cases n with
  | none => exact .null
  | some n => exact .number n

theorem modest_of_mem_family : ∀ entry ∈ family, Modest entry.2 := by
  simp only [family, List.forall_mem_cons]
  exact ⟨modest_arithmetic _ _ _, modest_arithmetic _ _ _, modest_arithmetic _ _ _, modest_divide,
    modest_round, modest_toNumber, List.forall_mem_nil _⟩

end Number

namespace Text

theorem modest_of_map {filter : Filter} {of : Value → Outcome String}
    {f : List String → String → String}
    (h : ∀ v args scope, filter v args scope = (of v).map fun s => .text (f args s)) :
    filter.Modest := by
  refine .of_gives fun v args scope => ?_
  rw [h]
  exact gives_map (fun s => .text _) _

theorem modest_replace : Modest replace := by
  refine .of_gives fun v args scope => ?_
  unfold replace
  split
  · exact gives_error _
  · split
    · exact gives_error _
    · split
      · exact gives_ok (.text _)
      · exact gives_ok (.text _)

/-- The one filter that gives its input back. -/
theorem modest_orDefault : Modest orDefault := by
  intro v args scope
  unfold orDefault
  split
  · exact gives_ok (.inl (.text _))
  · refine gives_ok ?_
    split
    · exact .inl (.text _)
    · exact .inr rfl
  · exact gives_ok (.inr rfl)

theorem modest_of_mem_family : ∀ entry ∈ family, Modest entry.2 := by
  simp only [family, List.forall_mem_cons]
  exact ⟨modest_of_map fun _ _ _ => rfl, modest_of_map fun _ _ _ => rfl,
    modest_of_map fun _ _ _ => rfl, modest_of_map fun _ _ _ => rfl, modest_of_map fun _ _ _ => rfl,
    modest_of_map fun _ _ _ => rfl, modest_replace, modest_orDefault, List.forall_mem_nil _⟩

end Text

namespace Logic

theorem modest_size : Modest size := by
  refine .of_gives fun v args scope => ?_
  unfold size
  split
  · exact gives_ok (.ofNat _)
  · exact gives_error _

theorem modest_of_mem_family : ∀ entry ∈ family, Modest entry.2 := by
  simp only [family, List.forall_mem_cons]
  exact ⟨.of_gives fun _ _ _ => gives_ok (.bool _), modest_size, List.forall_mem_nil _⟩

end Logic

theorem Comparison.modest_cond : Modest cond := by
  refine .of_gives fun v args scope => ?_
  unfold cond
  split
  · exact gives_error _
  · split
    · exact gives_error _
    · split
      · exact gives_error _
      · exact gives_map (fun b => .bool b) _

end Filter

/-- **The standard filters give scalars**, or their input. -/
theorem Registry.modest_of_mem_standard {entry : (String × String) × Filter}
    (h : entry ∈ standard.filters) : entry.2.Modest := by
  rcases mem_family_of_mem_standard h with htext | hnumber | hlogic | rfl
  · exact Filter.Text.modest_of_mem_family _ htext
  · exact Filter.Number.modest_of_mem_family _ hnumber
  · exact Filter.Logic.modest_of_mem_family _ hlogic
  · exact Filter.Comparison.modest_cond

/-! ## 3. Literals and contexts -/

/-- What a document holds as it stands is no collection. -/
theorem Value.IsLiteral.distinct {v : Value} (h : v.IsLiteral) : v.Distinct := by
  cases h with
  | null => exact .null
  | bool b => exact .bool b
  | number n => exact .number n
  | text _ => exact .text _

namespace Context

/-- A context in which every binding has distinct names. -/
def Distinct (c : Context) : Prop :=
  ∀ name, ∀ v ∈ c.get? name, v.Distinct

theorem distinct_empty : Distinct empty := by
  intro name v hv
  cases hv

theorem Distinct.bind {c : Context} {v : Value} (h : c.Distinct) (name : String)
    (hv : v.Distinct) : (c.bind name v).Distinct := by
  intro other w hw
  rw [get?_bind] at hw
  split at hw
  · exact Option.some.inj hw ▸ hv
  · exact h other w hw

end Context

/-- What the body of a repetition is told about an element has distinct names if the element has. -/
theorem Value.Distinct.repeatBinding {item : Value} (h : item.Distinct) (i count : Nat) :
    (Value.repeatBinding item i count).Distinct := by
  refine .mapping (by simp) ?_
  simp only [List.forall_mem_cons]
  exact ⟨h, (IsScalar.ofNat i).distinct, .bool _, .bool _, .bool _, .bool _,
    List.forall_mem_nil _⟩

/-! ## 4. Calls -/

/-- A key gives what handlers give, and what stands in that. -/
theorem Resolver.gives_resolve {r : Resolver} {context : Context}
    (h : ∀ handler ∈ r.handlers, ∀ key, (handler key context).Gives Value.Distinct) (key : Key) :
    (r.resolve key context).Gives Value.Distinct := by
  unfold resolve
  split
  · exact Outcome.gives_error _
  · next located hlocate =>
    have hhandler := h located.handler (mem_handlers_of_locate? hlocate) located.key
    split
    · exact Outcome.gives_error _
    · next v hv =>
      have hdistinct : v.Distinct := hhandler v hv
      split
      · exact Outcome.gives_ok hdistinct
      · exact Outcome.gives_ok (hdistinct.getD_get? _)

/-- A pipeline gives what its filters give, or its input. -/
theorem Registry.gives_applyAll {r : Registry} {scope : Scope}
    (h : ∀ entry ∈ r.filters, ∀ v args, v.Distinct → (entry.2 v args scope).Gives Value.Distinct)
    (fs : List FilterCall) {v : Value} (hv : v.Distinct) :
    (r.applyAll scope fs v).Gives Value.Distinct := by
  induction fs generalizing v with
  | nil => exact Outcome.gives_ok hv
  | cons f rest ih =>
    unfold applyAll
    split
    · exact Outcome.gives_error _
    · next w hw =>
      unfold apply at hw
      split at hw
      · next filter hfind =>
        obtain ⟨key, -, hmem⟩ := mem_of_find? hfind
        exact ih (h _ hmem v f.args hv w hw)
      · cases hw

/-- **The standard keys give values with distinct names** where the context binds such. -/
theorem Resolver.gives_of_mem_standard {handler : Handler} (h : handler ∈ standard.handlers)
    (key : Key) {c : Context} (hc : c.Distinct) : (handler key c).Gives Value.Distinct := by
  rcases mem_handlers_standard h with ⟨v, hv, rfl⟩ | rfl | rfl
  · exact Outcome.gives_ok hv.distinct
  · unfold numberLiteral
    split
    · exact Outcome.gives_ok (.number _)
    · exact Outcome.gives_error _
  · refine Outcome.gives_ok ?_
    cases hget : c.get? key.space with
    | none => exact .null
    | some v => exact (hc _ v hget).getD_get? key.name

namespace Env

/-- **Handlers and filters give values with distinct names**, in contexts that are good, where
    filters are given such values. A repetition binds such an element and leaves contexts good. -/
structure KeepsDistinct (env : Env) (good : Context → Prop) : Prop where
  forElement {c : Context} (h : good c) {item : Value} (hitem : item.Distinct) (i count : Nat) :
    good (c.forElement item i count)
  handlers : ∀ handler ∈ env.keys.handlers, ∀ key c, good c →
    (handler key c).Gives Value.Distinct
  filters : ∀ entry ∈ env.filters.filters, ∀ v args c, good c → v.Distinct →
    (entry.2 v args ⟨env.keys, c⟩).Gives Value.Distinct

open Metered

variable {env : Env} {good : Context → Prop} {c : Context}

/-- The standard filters keep names distinct, with handlers that do, where all bindings are such. -/
theorem keepsDistinct_standard {keys : Resolver} (h : ∀ handler ∈ keys.handlers, ∀ key c,
    c.Distinct → (handler key c).Gives Value.Distinct) :
    KeepsDistinct ⟨keys, .standard⟩ Context.Distinct where
  forElement hc _ hitem i count := hc.bind _ (hitem.repeatBinding i count)
  handlers := h
  filters entry hentry v args c _ hv w hw := by
    rcases Registry.modest_of_mem_standard hentry v args _ w hw with hscalar | rfl
    · exact hscalar.distinct
    · exact hv

namespace KeepsDistinct

theorem evalCall (h : env.KeepsDistinct good) (hc : good c) (call : Call) :
    (env.evalCall c call).Gives Value.Distinct := by
  unfold Env.evalCall
  split
  · exact Outcome.gives_error _
  · next v hv =>
    have hkey := Resolver.gives_resolve (fun handler hmem key => h.handlers handler hmem key c hc)
    refine Registry.gives_applyAll (fun entry hmem v args hv => ?_) call.filters (hkey _ v hv)
    exact h.filters entry hmem v args c hc hv

theorem evalTemplate (h : env.KeepsDistinct good) (hc : good c) (pieces : List Piece) :
    (env.evalTemplate c pieces).Gives Value.Distinct := by
  unfold Env.evalTemplate
  split
  · exact h.evalCall hc _
  · exact Outcome.gives_map (fun s => .text s) _

/-! ## 5. Expressions -/

/-- The fields of before, and those of a branch. -/
theorem gives_withBranch {fields : List (String × Value)} {result : Option Value}
    (hfields : (Value.mapping fields).Distinct) (hresult : ∀ v ∈ result, v.Distinct) :
    (Value.withBranch fields result).Gives fun merged => (Value.mapping merged).Distinct := by
  unfold Value.withBranch
  split
  · exact Outcome.gives_ok hfields
  · next branch =>
    cases hresult _ rfl with
    | mapping _ hbranch => exact Outcome.gives_ok (hfields.extend hbranch)
  · exact Outcome.gives_error _

theorem gives_elements {v : Value} (hv : v.Distinct) :
    v.elements.Gives fun items => ∀ item ∈ items, item.Distinct := by
  cases hv with
  | sequence hitems => exact Outcome.gives_ok hitems
  | _ => exact Outcome.gives_error _

theorem distinct_getD {result : Option Value} (h : ∀ v ∈ result, v.Distinct) :
    (result.getD .null).Distinct := by
  cases result with
  | none => exact .null
  | some v => exact h v rfl

mutual

/-- **Every value of an expression from a document has distinct names.** -/
theorem eval (h : env.KeepsDistinct good) : ∀ {e : Expr} {c : Context}, e.Wf → good c →
    (env.eval e c).Gives fun result => ∀ v ∈ result, v.Distinct
  | .const v, _, he, _ => by
    rw [Env.eval]
    refine gives_bind fun _ => gives_pure ?_
    rintro w ⟨⟩
    cases he with
    | leaf hleaf =>
      obtain ⟨hliteral⟩ | _ := hleaf
      exact hliteral.distinct
  | .interpolated pieces, _, _, hc => by
    rw [Env.eval]
    refine gives_bind fun _ => (gives_ofOutcome (h.evalTemplate hc pieces)).map ?_
    rintro v hv w ⟨⟩
    exact hv
  | .tree entries, _, he, hc => by
    rw [Env.eval]
    cases he with
    | leaf hleaf => cases hleaf
    | tree _ _ hentries =>
      refine gives_bind fun _ => (evalEntries h hentries hc Value.distinct_empty).map ?_
      rintro fields hfields w ⟨⟩
      exact hfields
  | .list items, _, he, hc => by
    rw [Env.eval]
    cases he with
    | leaf hleaf => cases hleaf
    | list hitems =>
      refine gives_bind fun _ => (evalItems h hitems hc).map ?_
      rintro values hvalues w ⟨⟩
      exact .sequence hvalues
  | .repetition source body, c, he, hc => by
    rw [Env.eval]
    cases he with
    | leaf hleaf => cases hleaf
    | repetition hsource hbody =>
      refine gives_bind fun _ => (eval h hsource hc).bind fun result hresult => ?_
      have helements := gives_elements (distinct_getD hresult)
      refine (gives_ofOutcome helements).bind fun items hitems => ?_
      refine (gives_forEach fun item hitem i =>
        eval h hbody (h.forElement hc (hitems item hitem) i items.length)).map ?_
      rintro values hvalues w ⟨⟩
      exact .sequence hvalues
  | .conditional clauses, _, he, hc => by
    rw [Env.eval]
    cases he with
    | leaf hleaf => cases hleaf
    | conditional hclauses => exact gives_bind fun _ => evalClauses h hclauses hc
  | .call _, _, he, _ | .all _, _, he, _ | .any _, _, he, _ => by
    cases he with
    | leaf hleaf => cases hleaf

theorem evalEntries (h : env.KeepsDistinct good) : ∀ {entries : List Entry} {c : Context}
    {fields : List (String × Value)}, (∀ entry ∈ entries, entry.Wf) → good c →
    (Value.mapping fields).Distinct →
    (env.evalEntries entries c fields).Gives fun merged => (Value.mapping merged).Distinct
  | [], _, _, _, _, hfields => by
    rw [Env.evalEntries]
    exact gives_pure hfields
  | .field name e :: _, _, _, hentries, hc, hfields => by
    rw [Env.evalEntries]
    obtain ⟨hentry, hrest⟩ := List.forall_mem_cons.mp hentries
    cases hentry with
    | field _ he =>
      refine (eval h he hc).bind fun result hresult => evalEntries h hrest hc ?_
      rw [withField_eq_extend]
      refine hfields.extend fun pair hpair => ?_
      obtain ⟨v, hv, rfl⟩ := List.mem_map.mp hpair
      exact hresult v (Option.mem_toList.mp hv)
  | .merge e :: _, _, _, hentries, hc, hfields => by
    rw [Env.evalEntries]
    obtain ⟨hentry, hrest⟩ := List.forall_mem_cons.mp hentries
    cases hentry with
    | merge he =>
      refine (eval h he hc).bind fun result hresult => ?_
      refine (gives_ofOutcome (gives_withBranch hfields hresult)).bind fun merged hmerged => ?_
      exact evalEntries h hrest hc hmerged

theorem evalItems (h : env.KeepsDistinct good) : ∀ {items : List Expr} {c : Context},
    (∀ item ∈ items, item.Wf) → good c →
    (env.evalItems items c).Gives fun values => ∀ v ∈ values, v.Distinct
  | [], _, _, _ => by
    rw [Env.evalItems]
    exact gives_pure (by simp)
  | _ :: _, _, hitems, hc => by
    rw [Env.evalItems]
    obtain ⟨hitem, hrest⟩ := List.forall_mem_cons.mp hitems
    refine (eval h hitem hc).bind fun result hresult => (evalItems h hrest hc).map ?_
    intro others hothers
    refine List.forall_mem_append.mpr ⟨fun v hv => ?_, hothers⟩
    exact hresult v (Option.mem_toList.mp hv)

theorem evalClauses (h : env.KeepsDistinct good) : ∀ {clauses : List Clause} {c : Context},
    (∀ clause ∈ clauses, clause.Wf) → good c →
    (env.evalClauses clauses c).Gives fun result => ∀ v ∈ result, v.Distinct
  | [], _, _, _ => by
    rw [Env.evalClauses]
    exact gives_pure (by simp)
  | .mk none _ :: _, _, hclauses, hc => by
    rw [Env.evalClauses]
    cases (List.forall_mem_cons.mp hclauses).1 with
    | mk _ hresult => exact eval h hresult hc
  | .mk (some _) _ :: _, _, hclauses, hc => by
    rw [Env.evalClauses]
    obtain ⟨hclause, hrest⟩ := List.forall_mem_cons.mp hclauses
    -- the value of a predicate is only tested
    refine gives_bind fun held => ?_
    split
    · cases hclause with
      | mk _ hresult => exact eval h hresult hc
    · exact evalClauses h hrest hc

end

theorem evalDocument (h : env.KeepsDistinct good) {e : Expr} (he : e.Wf) (hc : good c) :
    (env.evalDocument e c).Gives Value.Distinct := by
  refine (h.eval he hc).bind fun result hresult => ?_
  cases result with
  | some v => exact gives_pure (hresult v rfl)
  | none => exact gives_ofOutcome (o := .error .noMatchingClause) (Outcome.gives_error _)

end KeepsDistinct

end Env

end Stencil
