import Stencil.Filter.Standard
import Stencil.Proofs.Value

/-!
# What filters look at, and why they fail

A filter is given its input, its arguments, and the keys and the context at hand. This file fixes

* the filters that never look at the keys and the context, and fail only where an operand does not
  fit (`Filter.Plain`): all the families of the standard filters but one;
* the one key that a comparison may ask for (`Filter.Comparison.operandKey?`), with what a
  comparison depends on (`Filter.Comparison.cond_congr`) and why it fails
  (`Filter.Comparison.error_of_cond`);
* what this comes to for pipelines of standard filters, and of any filters.
-/

namespace Stencil

/-! ## 1. Outcomes of operands -/

/-- An outcome that is an error only because an operand does not fit. -/
def Outcome.Fits {α : Type} (o : Outcome α) : Prop :=
  ∀ error, o = .error error → ∃ cause, error = .typeMismatch cause

namespace Outcome

variable {α β : Type}

theorem fits_ok (a : α) : Fits (.ok a) := fun _ h => by cases h

theorem fits_mismatch (cause : Mismatch) : Fits (.error (.typeMismatch cause) : Outcome α) :=
  fun _ h => ⟨cause, (Except.error.inj h).symm⟩

theorem Fits.error {o : Outcome α} {error : EvalError} (h : o.Fits) (ho : o = .error error) :
    Fits (.error error : Outcome β) :=
  fun _ hother => h _ (ho.trans (congrArg _ (Except.error.inj hother)))

theorem Fits.map {o : Outcome α} (h : o.Fits) (f : α → β) : Fits (o.map f) := by
  cases o with
  | error error => exact h.error rfl
  | ok a => exact fits_ok (f a)

end Outcome

namespace Filter

open Outcome

theorem fits_argument (filter : String) (args : List String) (i : Nat) :
    (argument filter args i).Fits := by
  unfold argument
  split
  · exact fits_ok _
  · exact fits_mismatch _

theorem fits_scalarText (filter : String) (v : Value) : (scalarText filter v).Fits := by
  cases v with
  | sequence | mapping => exact fits_mismatch _
  | _ => exact fits_ok _

theorem fits_number? (filter : String) (v : Value) : (number? filter v).Fits := by
  unfold number?
  split
  · exact fits_ok _
  · exact fits_ok _
  · split
    · exact fits_ok _
    · exact fits_mismatch _
  · exact fits_mismatch _

theorem fits_numberArgument (filter : String) (args : List String) (i : Nat) :
    (numberArgument filter args i).Fits := by
  unfold numberArgument
  split
  · next herror => exact (fits_argument filter args i).error herror
  · split
    · exact fits_ok _
    · exact fits_mismatch _

/-- **The scalars are what has a text.** -/
theorem scalarText_eq_ok_iff {filter : String} {v : Value} {s : String} :
    scalarText filter v = .ok s ↔ v.IsScalar ∧ v.display = s := by
  cases v with
  | sequence | mapping => simp [scalarText, Value.IsScalar, Value.kind]
  | _ => simp [scalarText, Value.IsScalar, Value.kind]

/-! ## 2. Plain filters -/

/-- A filter that looks at nothing but its input and its arguments, and fails only where these do
    not fit. -/
structure Plain (f : Filter) : Prop where
  scope (v : Value) (args : List String) (scope scope' : Scope) : f v args scope = f v args scope'
  fits (v : Value) (args : List String) (scope : Scope) : (f v args scope).Fits

theorem Plain.of_fits {f : Value → List String → Outcome Value} (h : ∀ v args, (f v args).Fits) :
    Plain fun v args _ => f v args where
  scope _ _ _ _ := rfl
  fits v args _ := h v args

namespace Number

theorem fits_finite (filter : String) (x : Float) : (finite filter x).Fits := by
  unfold finite
  split
  · exact fits_ok _
  · exact fits_mismatch _

theorem fits_combine (filter : String) (exactOp : Int → Int → Int)
    (floatOp : Float → Float → Float) (a b : Stencil.Number) :
    (combine filter exactOp floatOp a b).Fits := by
  unfold combine
  split
  · split
    · exact fits_ok _
    · exact fits_finite filter _
  · exact fits_finite filter _

theorem plain_arithmetic (filter : String) (exactOp : Int → Int → Int)
    (floatOp : Float → Float → Float) : Plain (arithmetic filter exactOp floatOp) := by
  refine .of_fits fun v args => ?_
  split
  · next herror => exact (fits_number? filter v).error herror
  · exact fits_ok _
  · split
    · next herror => exact (fits_numberArgument filter args 0).error herror
    · exact fits_combine filter exactOp floatOp _ _

theorem plain_divide : Plain divide := by
  refine .of_fits fun v args => ?_
  split
  · next herror => exact (fits_number? "divide" v).error herror
  · exact fits_ok _
  · split
    · next herror => exact (fits_numberArgument "divide" args 0).error herror
    · split
      · exact fits_mismatch _
      · exact fits_finite "divide" _

theorem fits_digitCount (n : Stencil.Number) : (digitCount n).Fits := by
  unfold digitCount
  split
  · split
    · exact fits_ok _
    · exact fits_mismatch _
  · exact fits_mismatch _

theorem fits_roundDigits (args : List String) : (roundDigits args).Fits := by
  unfold roundDigits
  split
  · exact fits_ok _
  · split
    · next herror => exact (fits_numberArgument "round" _ 0).error herror
    · exact fits_digitCount _

theorem plain_round : Plain round := by
  refine .of_fits fun v args => ?_
  split
  · next herror => exact (fits_number? "round" v).error herror
  · exact fits_ok _
  · split
    · next herror => exact (fits_roundDigits args).error herror
    · split
      · exact fits_ok _
      · exact fits_finite "round" _

theorem plain_toNumber : Plain toNumber :=
  .of_fits fun v _ => (fits_number? "number" v).map _

theorem plain_of_mem_family : ∀ entry ∈ family, Plain entry.2 := by
  simp only [family, List.forall_mem_cons]
  exact ⟨plain_arithmetic .., plain_arithmetic .., plain_arithmetic .., plain_divide, plain_round,
    plain_toNumber, List.forall_mem_nil _⟩

end Number

namespace Text

theorem plain_mapText (name : String) (f : String → String) : Plain (mapText name f) :=
  .of_fits fun v _ => (fits_scalarText name v).map _

theorem plain_append : Plain append :=
  .of_fits fun v _ => (fits_scalarText "append" v).map _

theorem plain_prepend : Plain prepend :=
  .of_fits fun v _ => (fits_scalarText "prepend" v).map _

theorem plain_replace : Plain replace := by
  refine .of_fits fun v args => ?_
  split
  · next herror => exact (fits_scalarText "replace" v).error herror
  · split
    · next herror => exact (fits_argument "replace" args 0).error herror
    · split
      · exact fits_ok _
      · exact fits_ok _

theorem plain_orDefault : Plain orDefault := by
  refine .of_fits fun v args => ?_
  split
  · exact fits_ok _
  · exact fits_ok _
  · exact fits_ok _

theorem plain_of_mem_family : ∀ entry ∈ family, Plain entry.2 := by
  simp only [family, List.forall_mem_cons]
  exact ⟨plain_mapText .., plain_mapText .., plain_mapText .., plain_mapText .., plain_append,
    plain_prepend, plain_replace, plain_orDefault, List.forall_mem_nil _⟩

end Text

namespace Logic

theorem plain_negate : Plain negate :=
  .of_fits fun _ _ => fits_ok _

theorem plain_size : Plain size := by
  refine .of_fits fun v _ => ?_
  split
  · exact fits_ok _
  · exact fits_mismatch _

theorem plain_of_mem_family : ∀ entry ∈ family, Plain entry.2 := by
  simp only [family, List.forall_mem_cons]
  exact ⟨plain_negate, plain_size, List.forall_mem_nil _⟩

end Logic

end Filter

/-! ## 3. Comparisons -/

namespace Operator

open Outcome

theorem fits_testTexts (left right : Value) (test : String → String → Bool) :
    (testTexts left right test).Fits := by
  unfold testTexts
  split
  · next herror => exact (Filter.fits_scalarText filterName left).error herror
  · split
    · next herror => exact (Filter.fits_scalarText filterName right).error herror
    · exact fits_ok _

/-- **A test of texts compares two scalars.** -/
theorem testTexts_eq_ok_iff {left right : Value} {test : String → String → Bool} {b : Bool} :
    testTexts left right test = .ok b ↔
      left.IsScalar ∧ right.IsScalar ∧ test left.display right.display = b := by
  unfold testTexts
  split
  · next herror =>
    refine iff_of_false nofun fun h => ?_
    rw [Filter.scalarText_eq_ok_iff.mpr ⟨h.1, rfl⟩] at herror
    cases herror
  · next s hs =>
    obtain ⟨hleft, rfl⟩ := Filter.scalarText_eq_ok_iff.mp hs
    split
    · next herror =>
      refine iff_of_false nofun fun h => ?_
      rw [Filter.scalarText_eq_ok_iff.mpr ⟨h.2.1, rfl⟩] at herror
      cases herror
    · next t ht =>
      obtain ⟨hright, rfl⟩ := Filter.scalarText_eq_ok_iff.mp ht
      simp only [Except.ok.injEq, hleft, hright, true_and]

theorem fits_testNumbers (left right : Value) (test : Bool → Ordering → Bool) :
    (testNumbers left right test).Fits := by
  unfold testNumbers
  split
  · next herror => exact (Filter.fits_number? filterName left).error herror
  · split
    · next herror => exact (Filter.fits_number? filterName right).error herror
    · split
      · split
        · exact fits_ok _
        · exact fits_ok _
      · exact fits_ok _

theorem fits_test (op : Operator) (left right : Value) : (op.test left right).Fits := by
  cases op with
  | stringEquals | stringNotEquals | stringEqualsIgnoreCase | stringLike =>
    exact fits_testTexts left right _
  | bool | null => exact fits_ok _
  | _ =>
    simp only [test]
    exact fits_testNumbers left right _

end Operator

namespace Filter.Comparison

open Outcome

/-- The key that a comparison may ask for: that of its operand, if the operand has several parts. -/
def operandKey? : List String → Option Key
  | _ :: space :: part :: parts => some ⟨space, ":".intercalate (part :: parts)⟩
  | _ => none

variable {scope scope' : Scope} {v : Value} {args : List String} {error : EvalError}

/-- **A comparison asks for no other key than that of its operand.** -/
theorem cond_congr (h : ∀ key, operandKey? args = some key →
    scope.keys.owns key = scope'.keys.owns key ∧ scope.resolve key = scope'.resolve key) :
    cond v args scope = cond v args scope' := by
  match args, h with
  | [], _ => rfl
  | [_], _ => rfl
  | [_, _], _ => rfl
  | name :: space :: part :: parts, h =>
    obtain ⟨howns, hresolve⟩ := h _ rfl
    simp only [cond, operand, howns, hresolve]

/-- **Why a comparison fails**: its operands do not fit, or the key of its operand is owned and
    fails. -/
theorem error_of_cond (h : cond v args scope = .error error) :
    (∃ cause, error = .typeMismatch cause) ∨ ∃ key, operandKey? args = some key ∧
      scope.keys.owns key = true ∧ scope.resolve key = .error error := by
  unfold cond at h
  split at h
  · exact .inl (fits_mismatch _ _ h)
  · next name rest =>
    split at h
    · exact .inl (fits_mismatch _ _ h)
    · next op hop =>
      split at h
      · next failure hoperand =>
        obtain rfl := Except.error.inj h
        match rest, hoperand with
        | [], hoperand => exact .inl (fits_mismatch _ _ hoperand)
        | space :: part :: parts, hoperand =>
          simp only [operand] at hoperand
          split at hoperand
          · next howns => exact .inr ⟨_, rfl, howns, hoperand⟩
          · cases hoperand
      · exact .inl ((op.fits_test v _).map _ _ h)

end Filter.Comparison

/-! ## 4. Pipelines -/

namespace Registry

variable {r : Registry} {f : FilterCall} {fs : List FilterCall} {v : Value} {scope scope' : Scope}
  {error : EvalError}

theorem mem_of_find? {written : String} {filter : Filter} (h : r.find? written = some filter) :
    ∃ key, r.qualify? written = some key ∧ (key, filter) ∈ r.filters := by
  obtain ⟨key, hkey, hfilter⟩ := Option.bind_eq_some_iff.mp h
  exact ⟨key, hkey, Dictionary.mem_of_get? hfilter⟩

theorem apply_congr (h : ∀ filter, r.find? f.name = some filter →
    filter v f.args scope = filter v f.args scope') : r.apply f v scope = r.apply f v scope' := by
  unfold apply
  split
  · next filter hfind => exact h filter hfind
  · rfl

/-- Scopes that no filter of a pipeline tells apart. -/
theorem applyAll_congr (h : ∀ f ∈ fs, ∀ v, r.apply f v scope = r.apply f v scope') :
    r.applyAll scope fs v = r.applyAll scope' fs v := by
  induction fs generalizing v with
  | nil => rfl
  | cons f rest ih =>
    unfold applyAll
    rw [h f List.mem_cons_self v]
    split
    · rfl
    · exact ih fun other hother => h other (List.mem_cons_of_mem f hother)

/-- **Why a pipeline fails**: a filter is unknown, or a filter fails. -/
theorem error_of_applyAll (h : r.applyAll scope fs v = .error error) :
    ∃ f ∈ fs, (r.contains f.name = false ∧ error = .unknownFilter f.name) ∨
      ∃ entry ∈ r.filters, ∃ input, entry.2 input f.args scope = .error error := by
  induction fs generalizing v with
  | nil => cases h
  | cons f rest ih =>
    unfold applyAll at h
    split at h
    · next failure hfails =>
      obtain rfl := Except.error.inj h
      refine ⟨f, List.mem_cons_self, ?_⟩
      unfold apply at hfails
      split at hfails
      · next filter hfind =>
        obtain ⟨key, -, hmem⟩ := mem_of_find? hfind
        exact .inr ⟨_, hmem, v, hfails⟩
      · next hfind =>
        refine .inl ⟨?_, (Except.error.inj hfails).symm⟩
        rw [contains, hfind, Option.isSome_none]
    · obtain ⟨other, hother, hreason⟩ := ih h
      exact ⟨other, List.mem_cons_of_mem f hother, hreason⟩

/-! ## 5. The standard registry -/

/-- What is registered: what was there, and the new filters in their namespace. -/
theorem mem_of_mem_registerAll {space : String} {filters : List (String × Filter)}
    {entry : (String × String) × Filter} (h : entry ∈ (r.registerAll space filters).filters) :
    entry ∈ r.filters ∨ entry.1.1 = space ∧ (entry.1.2, entry.2) ∈ filters := by
  induction filters generalizing r with
  | nil => exact .inl h
  | cons first rest ih =>
    rcases ih h with hregister | ⟨hspace, hrest⟩
    · rcases Dictionary.mem_of_mem_insert hregister with hold | rfl
      · exact .inl hold
      · exact .inr ⟨rfl, List.mem_cons_self⟩
    · exact .inr ⟨hspace, List.mem_cons_of_mem first hrest⟩

/-- A standard filter is a member of one of the four families. -/
theorem mem_family_of_mem_standard {entry : (String × String) × Filter}
    (h : entry ∈ standard.filters) :
    (entry.1.2, entry.2) ∈ Filter.Text.family ∨ (entry.1.2, entry.2) ∈ Filter.Number.family ∨
      (entry.1.2, entry.2) ∈ Filter.Logic.family ∨
      entry = (("cond", "cond"), Filter.Comparison.cond) := by
  rcases mem_of_mem_registerAll h with h | ⟨-, hlogic⟩
  · rcases mem_of_mem_registerAll h with h | ⟨hspace, hcond⟩
    · rcases mem_of_mem_registerAll h with h | ⟨-, hnumber⟩
      · rcases mem_of_mem_registerAll h with h | ⟨-, htext⟩
        · cases h
        · exact .inl htext
      · exact .inr (.inl hnumber)
    · obtain ⟨hname, hfilter⟩ := Prod.mk.inj (List.mem_singleton.mp hcond)
      exact .inr (.inr (.inr (Prod.ext (Prod.ext hspace hname) hfilter)))
  · exact .inr (.inr (.inl hlogic))

/-- **All standard filters are plain but one**: the comparison. -/
theorem plain_or_cond_of_mem {entry : (String × String) × Filter} (h : entry ∈ standard.filters) :
    entry.2.Plain ∨ entry = (("cond", "cond"), Filter.Comparison.cond) := by
  rcases mem_family_of_mem_standard h with htext | hnumber | hlogic | hcond
  · exact .inl (Filter.Text.plain_of_mem_family _ htext)
  · exact .inl (Filter.Number.plain_of_mem_family _ hnumber)
  · exact .inl (Filter.Logic.plain_of_mem_family _ hlogic)
  · exact .inr hcond

/-- The two names of the comparison. -/
theorem qualify?_eq_cond {written : String}
    (h : standard.qualify? written = some ("cond", "cond")) :
    written = "cond" ∨ written = "cond.cond" := by
  unfold qualify? at h
  split at h
  · next space name hsplit =>
    have htext := (Text.eq_append_of_splitFirst hsplit).1
    obtain ⟨hspace, hname⟩ := Prod.mk.inj (Option.some.inj h)
    have hbefore : space = "cond".toList := by rw [← hspace, String.toList_ofList]
    have hafter : name = "cond".toList := by rw [← hname, String.toList_ofList]
    refine .inr (String.toList_inj.mp ?_)
    rw [htext, hbefore, hafter]
    rfl
  · obtain ⟨space, -, hpair⟩ := Option.map_eq_some_iff.mp h
    exact .inl (Prod.mk.inj hpair).2

end Registry

/-- The key that a standard filter may ask for: that of the operand of a comparison. -/
def FilterCall.operandKey? (f : FilterCall) : Option Key :=
  if f.name = "cond" ∨ f.name = "cond.cond" then Filter.Comparison.operandKey? f.args else none

/-- **A standard filter asks for no other key than that of its operand.** -/
theorem Registry.apply_standard_congr {f : FilterCall} {v : Value} {scope scope' : Scope}
    (h : ∀ key, f.operandKey? = some key →
      scope.keys.owns key = scope'.keys.owns key ∧ scope.resolve key = scope'.resolve key) :
    standard.apply f v scope = standard.apply f v scope' := by
  refine apply_congr fun filter hfind => ?_
  obtain ⟨key, hkey, hmem⟩ := mem_of_find? hfind
  rcases plain_or_cond_of_mem hmem with hplain | heq
  · exact hplain.scope v f.args scope scope'
  · obtain ⟨rfl, rfl⟩ := Prod.mk.inj heq
    refine Filter.Comparison.cond_congr fun operand hoperand => h operand ?_
    rw [FilterCall.operandKey?, if_pos (qualify?_eq_cond hkey), hoperand]

end Stencil
