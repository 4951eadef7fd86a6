import Stencil.Value

/-!
# Paths and names in values

This file fixes

* how a dotted path leads into a value: two paths with a dot between them are walked one after the
  other (`Value.get?_append_dot`), and a name without dots is one step (`Value.get?_mapping`);
* the values in which every mapping, at every depth, has each name once (`Value.Distinct`): what a
  path leads to in such a value is such a value, and so is a mapping with fields more;
* the values in which every number has a property (`Value.Numbers`).
-/

namespace Stencil.Value

variable {v w : Value} {name path first second : String} {fields more : List (String × Value)}

/-! ## 1. Paths -/

theorem get?_of_ne (h : path ≠ "") : v.get? path = v.walk? (path.toList.splitOn '.') := by
  rw [get?, if_neg]
  simpa using h

/-- Steps after steps. -/
theorem walk?_append (v : Value) (segments others : List (List Char)) :
    v.walk? (segments ++ others) = (v.walk? segments).bind fun inner => inner.walk? others := by
  induction segments generalizing v with
  | nil => rfl
  | cons segment rest ih =>
    rw [List.cons_append, walk?, walk?, Option.bind_assoc]
    exact congrArg _ (funext ih)

/-- **A path is walked part by part.** -/
theorem get?_append_dot (hfirst : first ≠ "") (hsecond : second ≠ "") :
    v.get? (first ++ "." ++ second) = (v.get? first).bind fun inner => inner.get? second := by
  have hchars : (first ++ "." ++ second).toList = first.toList ++ '.' :: second.toList := by simp
  have hne : first ++ "." ++ second ≠ "" := by
    intro h
    rw [h] at hchars
    simp at hchars
  have hsplit : (first.toList ++ '.' :: second.toList).splitOn '.' =
      first.toList.splitOn '.' ++ second.toList.splitOn '.' :=
    List.splitOnP_append_cons _ _ (beq_self_eq_true '.')
  rw [get?_of_ne hne, get?_of_ne hfirst, hchars, hsplit, walk?_append]
  exact congrArg _ (funext fun inner => (get?_of_ne hsecond).symm)

/-- **A name without dots is looked up in a mapping.** -/
theorem get?_mapping (hname : name ≠ "") (hdot : '.' ∉ name.toList) :
    (mapping fields).get? name = Dictionary.get? fields name := by
  rw [get?_of_ne hname, List.splitOn_eq_singleton hdot, walk?, step?, String.ofList_toList]
  exact Option.bind_fun_some _

/-! ## 2. Distinct names -/

/-- **A value in which every mapping has each name once**, at every depth. -/
inductive Distinct : Value → Prop where
  | null : Distinct .null
  | bool (b : Bool) : Distinct (.bool b)
  | number (n : Number) : Distinct (.number n)
  | text (s : String) : Distinct (.text s)
  | sequence {items : List Value} (h : ∀ v ∈ items, Distinct v) : Distinct (.sequence items)
  | mapping {fields : List (String × Value)} (hnames : (fields.map Prod.fst).Nodup)
      (h : ∀ pair ∈ fields, Distinct pair.2) : Distinct (.mapping fields)

/-- A value that is no collection. -/
def IsScalar (v : Value) : Prop :=
  v.kind ≠ .sequence ∧ v.kind ≠ .mapping

theorem distinct_empty : (mapping []).Distinct :=
  .mapping List.nodup_nil (List.forall_mem_nil _)

namespace IsScalar

theorem null : Value.null.IsScalar := ⟨nofun, nofun⟩

theorem bool (b : Bool) : (Value.bool b).IsScalar := ⟨nofun, nofun⟩

theorem number (n : Number) : (Value.number n).IsScalar := ⟨nofun, nofun⟩

theorem text (s : String) : (Value.text s).IsScalar := ⟨nofun, nofun⟩

theorem ofNat (n : Nat) : (Value.ofNat n).IsScalar := by
  unfold Value.ofNat
  split <;> exact number _

theorem distinct (h : v.IsScalar) : v.Distinct := by
  cases v with
  | null => exact .null
  | bool b => exact .bool b
  | number n => exact .number n
  | text s => exact .text s
  | sequence items => exact absurd rfl h.1
  | mapping fields => exact absurd rfl h.2

end IsScalar

namespace Distinct

theorem step? {segment : List Char} (h : v.Distinct) (hstep : v.step? segment = some w) :
    w.Distinct := by
  cases h with
  | mapping hnames h => exact h _ (Dictionary.mem_of_get? hstep)
  | sequence h =>
    obtain ⟨i, -, hi⟩ := Option.bind_eq_some_iff.mp hstep
    exact h w (List.mem_of_getElem? hi)
  | null | bool | number | text => cases hstep

theorem walk? {segments : List (List Char)} (h : v.Distinct)
    (hwalk : v.walk? segments = some w) : w.Distinct := by
  induction segments generalizing v with
  | nil => exact Option.some.inj hwalk ▸ h
  | cons segment rest ih =>
    obtain ⟨inner, hstep, hrest⟩ := Option.bind_eq_some_iff.mp hwalk
    exact ih (h.step? hstep) hrest

/-- **What a path leads to.** -/
theorem get? (h : v.Distinct) (hget : v.get? path = some w) : w.Distinct := by
  unfold Value.get? at hget
  split at hget
  · exact Option.some.inj hget ▸ h
  · exact h.walk? hget

theorem getD_get? (h : v.Distinct) (path : String) : ((v.get? path).getD .null).Distinct := by
  cases hget : v.get? path with
  | none => exact .null
  | some w => exact h.get? hget

/-- **A mapping with the fields of another one.** -/
theorem extend (h : (Value.mapping fields).Distinct) (hmore : ∀ pair ∈ more, pair.2.Distinct) :
    (Value.mapping (Dictionary.extend fields more)).Distinct := by
  cases h with
  | mapping hnames hfields =>
    refine .mapping (Dictionary.keys_extend_nodup hnames more) fun pair hpair => ?_
    exact (Dictionary.mem_of_mem_extend hpair).elim (hfields pair) (hmore pair)

end Distinct

/-! ## 3. Numbers -/

/-- **A value all of whose numbers have a property**, at every depth. -/
inductive Numbers (P : Number → Prop) : Value → Prop where
  | null : Numbers P .null
  | bool (b : Bool) : Numbers P (.bool b)
  | number {n : Number} (h : P n) : Numbers P (.number n)
  | text (s : String) : Numbers P (.text s)
  | sequence {items : List Value} (h : ∀ v ∈ items, Numbers P v) : Numbers P (.sequence items)
  | mapping {fields : List (String × Value)} (h : ∀ pair ∈ fields, Numbers P pair.2) :
      Numbers P (.mapping fields)

namespace Numbers

variable {P : Number → Prop}

theorem step? {segment : List Char} (h : v.Numbers P) (hstep : v.step? segment = some w) :
    w.Numbers P := by
  cases h with
  | mapping h => exact h _ (Dictionary.mem_of_get? hstep)
  | sequence h =>
    obtain ⟨i, -, hi⟩ := Option.bind_eq_some_iff.mp hstep
    exact h w (List.mem_of_getElem? hi)
  | null | bool | number | text => cases hstep

theorem walk? {segments : List (List Char)} (h : v.Numbers P)
    (hwalk : v.walk? segments = some w) : w.Numbers P := by
  induction segments generalizing v with
  | nil => exact Option.some.inj hwalk ▸ h
  | cons segment rest ih =>
    obtain ⟨inner, hstep, hrest⟩ := Option.bind_eq_some_iff.mp hwalk
    exact ih (h.step? hstep) hrest

end Numbers

end Stencil.Value
