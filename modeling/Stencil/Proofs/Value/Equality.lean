import Mathlib.Data.List.Perm.Subperm
import Stencil.Proofs.Dictionary
import Stencil.Proofs.Filter.Integers
import Stencil.Proofs.Value

/-!
# The equality of values

Two integers are compared exactly, all other pairs of numbers as doubles; sequences are compared by
position and mappings by name. This file fixes

* that two values are equal if and only if along every path there stands the same in both
  (`Value.same_iff_walk?`): nothing, or values of one type, and equal ones if they hold no others;
* that an integer is equal to the double it is rounded to (`Number.same_int_float_iff`);
* that equality is reflexive without NaN and symmetric, and that it is transitive exactly where no
  two different integers meet which a double between them is equal to (`Value.same_laws`). So it is
  an equivalence on values whose integers are doubles, and on all values it is none
  (`Value.same_not_trans`).
-/

namespace Stencil

open Binary64

/-! ## 1. Numbers -/

namespace Number

variable {m n p : Number}

/-- A number that is not NaN. -/
def IsOrdered : Number → Prop
  | .int _ => True
  | .float x => x.isNaN = false

/-- A number that a double stands for: an integer that is not rounded, or a double. -/
def IsDouble : Number → Prop
  | .int i => nearestInt i.toInt = i.toInt
  | .float _ => True

/-- **Equality of numbers**: their doubles are equal, and if both are integers, these are, too. -/
theorem same_iff : m.same n = true ↔
    (m.toFloat == n.toFloat) = true ∧ ∀ i j, m = .int i → n = .int j → i = j := by
  cases m with
  | float x => simp [same]
  | int i =>
    cases n with
    | float y => simp [same]
    | int j =>
      have hself : ((Number.int i).toFloat == (Number.int i).toFloat) = true :=
        ((hasValue_toFloat i).beq_iff (hasValue_toFloat i)).mpr rfl
      constructor
      · intro h
        obtain rfl : i = j := beq_iff_eq.mp h
        exact ⟨hself, fun _ _ hi hj => Number.int.inj (hi.symm.trans hj)⟩
      · exact fun h => beq_iff_eq.mpr (h.2 i j rfl rfl)

theorem same_self (h : n.IsOrdered) : n.same n = true := by
  cases n with
  | int i => exact beq_self_eq_true i
  | float x =>
    have hx : x.isNaN = false := h
    rw [Float.isNaN_eq_decide_eq_nan, decide_eq_false_iff_not] at hx
    exact Float.beq_self_iff.mpr hx

theorem same_comm (m n : Number) : m.same n = n.same m := by
  rw [Bool.eq_iff_iff, same_iff, same_iff, BEq.comm]
  exact and_congr_right fun _ =>
    ⟨fun h i j hi hj => (h j i hj hi).symm, fun h i j hi hj => (h j i hj hi).symm⟩

/-- **Where the equality of numbers is transitive**: everywhere but between different integers. -/
theorem same_trans_iff (hmn : m.same n = true) (hnp : n.same p = true) :
    m.same p = true ↔ ∀ i j, m = .int i → p = .int j → i = j := by
  rw [same_iff]
  exact and_iff_right (BEq.trans (same_iff.mp hmn).1 (same_iff.mp hnp).1)

/-- **An integer is equal to a double** if and only if the double is the integer it is rounded to,
    so never to a double with a fraction. -/
theorem same_int_float_iff (i : Int64) (x : Float) :
    (Number.int i).same (.float x) = true ↔
      (Binary64.ofFloat? x).bind Binary64.toInt? = some (nearestInt i.toInt) :=
  (hasValue_toFloat i).beq_iff_toInt?

/-- Integers that are doubles are not confused. -/
theorem eq_of_same_of_same {i j : Int64} (hi : (Number.int i).IsDouble)
    (hj : (Number.int j).IsDouble) (hin : (Number.int i).same n = true)
    (hnj : n.same (.int j) = true) : i = j := by
  have hfloat := BEq.trans (same_iff.mp hin).1 (same_iff.mp hnj).1
  have hrounded := ((hasValue_toFloat i).beq_iff (hasValue_toFloat j)).mp hfloat
  have hi' : nearestInt i.toInt = i.toInt := hi
  have hj' : nearestInt j.toInt = j.toInt := hj
  exact Int64.toInt_inj.mp (by omega)

end Number

/-! ## 2. Collections -/

namespace Value

variable {a b c v w : Value} {as bs : List Value} {fields others : List (String × Value)}

/-- What holds of two things that are found can be weakened. -/
theorem rel_imp {α : Type} {R S : α → α → Prop} {found other : Option α}
    (h : Option.Rel R found other)
    (himp : ∀ x y, found = some x → other = some y → R x y → S x y) :
    Option.Rel S found other := by
  cases h with
  | none => exact .none
  | some hxy => exact .some (himp _ _ rfl rfl hxy)

/-- What is looked for in two things that are found. -/
theorem rel_bind {α β : Type} {R : α → α → Prop} {S : β → β → Prop} {found other : Option α}
    {f g : α → Option β} (h : Option.Rel R found other)
    (hbind : ∀ x y, found = some x → other = some y → R x y → Option.Rel S (f x) (g y)) :
    Option.Rel S (found.bind f) (other.bind g) := by
  cases h with
  | none => exact .none
  | some hxy => exact hbind _ _ rfl rfl hxy

/-- Equality of sequences, by position. -/
theorem sameItems_iff : sameItems as bs = true ↔
    ∀ i : Nat, Option.Rel (fun v w : Value => v.same w = true) as[i]? bs[i]? := by
  induction as generalizing bs with
  | nil =>
    cases bs with
    | nil => simp [sameItems]
    | cons b bs =>
      refine iff_of_false Bool.false_ne_true fun h => ?_
      cases h 0
  | cons a as ih =>
    cases bs with
    | nil =>
      refine iff_of_false Bool.false_ne_true fun h => ?_
      cases h 0
    | cons b bs =>
      rw [sameItems, Bool.and_eq_true, ih]
      constructor
      · rintro ⟨hhead, htail⟩ i
        cases i with
        | zero => exact .some hhead
        | succ i => exact htail i
      · intro h
        refine ⟨?_, fun i => h (i + 1)⟩
        cases h 0 with
        | some hhead => exact hhead

/-- Every field is found, by name, with an equal value. -/
theorem sameFields_iff : sameFields fields others = true ↔
    ∀ pair ∈ fields, ∃ w, Dictionary.get? others pair.1 = some w ∧ pair.2.same w = true := by
  induction fields with
  | nil => simp [sameFields]
  | cons pair rest ih =>
    obtain ⟨name, v⟩ := pair
    rw [sameFields, Bool.and_eq_true, ih, List.forall_mem_cons]
    refine and_congr_left fun _ => ?_
    cases Dictionary.get? others name <;> simp

/-- **Equality of mappings, by name.** Equally many fields are enough for both to have the same
    names, since no name stands twice in a mapping. -/
theorem same_mapping_iff (hfields : (fields.map Prod.fst).Nodup)
    (hothers : (others.map Prod.fst).Nodup) :
    (mapping fields).same (mapping others) = true ↔
      ∀ name, Option.Rel (fun v w : Value => v.same w = true)
        (Dictionary.get? fields name) (Dictionary.get? others name) := by
  rw [same, Bool.and_eq_true, beq_iff_eq, sameFields_iff]
  constructor
  · rintro ⟨hlength, hfound⟩ name
    have hsub : fields.map Prod.fst ⊆ others.map Prod.fst := by
      intro key hkey
      obtain ⟨pair, hpair, rfl⟩ := List.mem_map.mp hkey
      obtain ⟨w, hw, -⟩ := hfound pair hpair
      exact Dictionary.get?_isSome_iff.mp (Option.isSome_of_eq_some hw)
    have hperm : (fields.map Prod.fst).Perm (others.map Prod.fst) :=
      (List.subperm_of_subset hfields hsub).perm_of_length_le (by simp [hlength])
    cases hget : Dictionary.get? fields name with
    | none =>
      have hnone : Dictionary.get? others name = none := by
        rw [Dictionary.get?_eq_none_iff, ← hperm.mem_iff, ← Dictionary.get?_eq_none_iff, hget]
      rw [hnone]
      exact .none
    | some v =>
      obtain ⟨w, hw, hvw⟩ := hfound _ (Dictionary.mem_of_get? hget)
      rw [hw]
      exact .some hvw
  · intro h
    have hnames : ∀ name, name ∈ fields.map Prod.fst ↔ name ∈ others.map Prod.fst := by
      intro name
      rw [← Dictionary.get?_isSome_iff, ← Dictionary.get?_isSome_iff]
      have hrel := h name
      generalize Dictionary.get? fields name = first, Dictionary.get? others name = second at hrel
      cases hrel <;> rfl
    constructor
    · have hperm := (List.perm_ext_iff_of_nodup hfields hothers).mpr hnames
      simpa using hperm.length_eq
    · rintro ⟨name, v⟩ hpair
      have hrel := h name
      rw [(Dictionary.get?_eq_some_iff hfields).mpr hpair] at hrel
      generalize Dictionary.get? others name = found at hrel ⊢
      cases hrel with
      | some hvw => exact ⟨_, rfl, hvw⟩

/-! ## 3. Paths -/

/-- Two values look alike from outside: they are of one type, and equal unless they hold others. -/
inductive Alike : Value → Value → Prop where
  | null : Alike .null .null
  | bool (b : Bool) : Alike (.bool b) (.bool b)
  | number {m n : Number} (h : m.same n = true) : Alike (.number m) (.number n)
  | text (s : String) : Alike (.text s) (.text s)
  | sequence (as bs : List Value) : Alike (.sequence as) (.sequence bs)
  | mapping (fields others : List (String × Value)) : Alike (.mapping fields) (.mapping others)

/-- Along every path there stands alike in both values, or nothing in both. -/
def AlikeEverywhere (a b : Value) : Prop :=
  ∀ path, Option.Rel Alike (a.walk? path) (b.walk? path)

theorem alike_of_same (h : a.same b = true) : Alike a b := by
  unfold same at h
  split at h
  · exact .null
  · exact beq_iff_eq.mp h ▸ .bool _
  · exact .number h
  · exact beq_iff_eq.mp h ▸ .text _
  · exact .sequence _ _
  · exact .mapping _ _
  · cases h

/-- One step into equal values leads to equal values. -/
theorem same_step? (ha : a.Distinct) (hb : b.Distinct) (h : a.same b = true)
    (segment : List Char) :
    Option.Rel (fun v w : Value => v.same w = true) (a.step? segment) (b.step? segment) := by
  cases alike_of_same h with
  | null | bool | number | text => exact .none
  | sequence as bs =>
    rw [step?, step?]
    cases Decimal.natural? segment with
    | none => exact .none
    | some i => exact sameItems_iff.mp h i
  | mapping fields others =>
    cases ha with
    | mapping hfields =>
      cases hb with
      | mapping hothers => exact (same_mapping_iff hfields hothers).mp h _

/-- Every path into equal values leads to values that look alike. -/
theorem alikeEverywhere_of_same (ha : a.Distinct) (hb : b.Distinct) (h : a.same b = true) :
    AlikeEverywhere a b := by
  intro path
  induction path generalizing a b with
  | nil => exact .some (alike_of_same h)
  | cons segment rest ih =>
    exact rel_bind (same_step? ha hb h segment) fun v w hv hw hvw =>
      ih (ha.step? hv) (hb.step? hw) hvw

/-- What is alike everywhere is so inside. -/
theorem AlikeEverywhere.step? (h : AlikeEverywhere a b) (segment : List Char) :
    Option.Rel AlikeEverywhere (a.step? segment) (b.step? segment) := by
  have hpaths : ∀ rest, Option.Rel Alike ((a.step? segment).bind fun v => v.walk? rest)
      ((b.step? segment).bind fun w => w.walk? rest) := fun rest => h (segment :: rest)
  cases hv : a.step? segment <;> cases hw : b.step? segment <;> rw [hv, hw] at hpaths
  · exact .none
  · cases hpaths []
  · cases hpaths []
  · exact .some hpaths

theorem AlikeEverywhere.root (h : AlikeEverywhere a b) : Alike a b := by
  cases h [] with
  | some hroot => exact hroot

/-- The path of an element. -/
theorem step?_digitsOf (as : List Value) (i : Nat) :
    (sequence as).step? (Decimal.digitsOf i) = as[i]? := by
  rw [Value.step?, Decimal.natural?_digitsOf, Option.bind_some]

/-- The path of a field. -/
theorem step?_toList (fields : List (String × Value)) (name : String) :
    (mapping fields).step? name.toList = Dictionary.get? fields name := by
  rw [Value.step?, String.ofList_toList]

/-- Values that look alike along every path are equal. -/
theorem AlikeEverywhere.same (ha : a.Distinct) (hb : b.Distinct) (h : AlikeEverywhere a b) :
    a.same b = true := by
  induction ha generalizing b with
  | null => cases h.root with | null => rfl
  | bool => cases h.root with | bool => exact beq_self_eq_true _
  | number => cases h.root with | number hsame => exact hsame
  | text => cases h.root with | text => exact beq_self_eq_true _
  | @sequence as _ ih =>
    cases h.root with
    | sequence _ bs =>
      cases hb with
      | sequence hbs =>
        refine sameItems_iff.mpr fun i => ?_
        have hstep := h.step? (Decimal.digitsOf i)
        rw [step?_digitsOf, step?_digitsOf] at hstep
        exact rel_imp hstep fun v w hv hw hvw =>
          ih v (List.mem_of_getElem? hv) (hbs w (List.mem_of_getElem? hw)) hvw
  | @mapping fields hfields _ ih =>
    cases h.root with
    | mapping _ others =>
      cases hb with
      | mapping hothers hin =>
        refine (same_mapping_iff hfields hothers).mpr fun name => ?_
        have hstep := h.step? name.toList
        rw [step?_toList, step?_toList] at hstep
        exact rel_imp hstep fun v w hv hw hvw =>
          ih _ (Dictionary.mem_of_get? hv) (hin _ (Dictionary.mem_of_get? hw)) hvw

/-- **Two values are equal if and only if along every path there stands the same in both.** -/
theorem same_iff_walk? (ha : a.Distinct) (hb : b.Distinct) :
    a.same b = true ↔ ∀ path, Option.Rel Alike (a.walk? path) (b.walk? path) :=
  ⟨alikeEverywhere_of_same ha hb, fun h => AlikeEverywhere.same ha hb h⟩

/-! ## 4. Laws -/

theorem Alike.self (h : v.Numbers Number.IsOrdered) : Alike v v := by
  cases h with
  | null => exact .null
  | bool b => exact .bool b
  | number hn => exact .number (Number.same_self hn)
  | text s => exact .text s
  | sequence => exact .sequence _ _
  | mapping => exact .mapping _ _

theorem Alike.symm (h : Alike v w) : Alike w v := by
  cases h with
  | null => exact .null
  | bool b => exact .bool b
  | number h => exact .number (Number.same_comm _ _ ▸ h)
  | text s => exact .text s
  | sequence => exact .sequence _ _
  | mapping => exact .mapping _ _

/-- Three values, of which the outer ones are not different integers. -/
theorem Alike.trans {u : Value} (huv : Alike u v) (hvw : Alike v w)
    (hints : ∀ i j, u = .number (.int i) → w = .number (.int j) → i = j) : Alike u w := by
  cases huv with
  | number huv =>
    cases hvw with
    | number hvw =>
      refine .number ((Number.same_trans_iff huv hvw).mpr fun i j hi hj => ?_)
      exact hints i j (congrArg _ hi) (congrArg _ hj)
  | null | bool | text => exact hvw
  | sequence => cases hvw with | sequence => exact .sequence _ _
  | mapping => cases hvw with | mapping => exact .mapping _ _

/-- No path leads to different integers. -/
def IntegersAgree (a c : Value) : Prop :=
  ∀ path i j, a.walk? path = some (.number (.int i)) → c.walk? path = some (.number (.int j)) →
    i = j

theorem same_self (ha : a.Distinct) (hordered : a.Numbers Number.IsOrdered) :
    a.same a = true := by
  refine (same_iff_walk? ha ha).mpr fun path => ?_
  cases hv : a.walk? path with
  | none => exact .none
  | some v => exact .some (Alike.self (hordered.walk? hv))

theorem same_symm (ha : a.Distinct) (hb : b.Distinct) (h : a.same b = true) :
    b.same a = true := by
  refine (same_iff_walk? hb ha).mpr fun path => ?_
  have hpath := (same_iff_walk? ha hb).mp h path
  generalize a.walk? path = found, b.walk? path = other at hpath
  cases hpath with
  | none => exact .none
  | some hvw => exact .some hvw.symm

/-- **Where the equality of values is transitive**: everywhere but between values in which a path
    leads to different integers. -/
theorem same_trans_iff (ha : a.Distinct) (hb : b.Distinct) (hc : c.Distinct)
    (hab : a.same b = true) (hbc : b.same c = true) : a.same c = true ↔ IntegersAgree a c := by
  constructor
  · intro hac path i j hi hj
    have hpath := (same_iff_walk? ha hc).mp hac path
    rw [hi, hj] at hpath
    cases hpath with
    | some hij =>
      cases hij with
      | number hsame => exact beq_iff_eq.mp hsame
  · intro hagree
    refine (same_iff_walk? ha hc).mpr fun path => ?_
    have hfirst := (same_iff_walk? ha hb).mp hab path
    have hsecond := (same_iff_walk? hb hc).mp hbc path
    have hints := hagree path
    generalize a.walk? path = u, b.walk? path = v, c.walk? path = w at *
    cases hfirst with
    | none => exact hsecond
    | some huv =>
      cases hsecond with
      | some hvw =>
        exact .some (huv.trans hvw fun i j hi hj => hints i j (congrArg _ hi) (congrArg _ hj))

/-- Integers that are doubles agree in values that are equal to a third one. -/
theorem integersAgree_of_isDouble (ha : a.Distinct) (hb : b.Distinct) (hc : c.Distinct)
    (hdouble : a.Numbers Number.IsDouble) (hdouble' : c.Numbers Number.IsDouble)
    (hab : a.same b = true) (hbc : b.same c = true) : IntegersAgree a c := by
  intro path i j hi hj
  have hfirst := (same_iff_walk? ha hb).mp hab path
  have hsecond := (same_iff_walk? hb hc).mp hbc path
  rw [hi] at hfirst
  rw [hj] at hsecond
  generalize b.walk? path = v at hfirst hsecond
  cases hfirst with
  | some huv =>
    cases huv with
    | number hin =>
      cases hsecond with
      | some hvw =>
        cases hvw with
        | number hnj =>
          cases hdouble.walk? hi with
          | number hi' =>
            cases hdouble'.walk? hj with
            | number hj' => exact Number.eq_of_same_of_same hi' hj' hin hnj

/-- **The laws of equality.** Values are equal if and only if along every path there stands the same
    in both; an integer and a double are, if the double is the integer it is rounded to. Every value
    without NaN is equal to itself, and equality goes both ways. Of three values, the first and the
    last are equal if and only if no path leads to different integers in them, which never happens
    if their integers are doubles. -/
theorem same_laws (ha : a.Distinct) (hb : b.Distinct) (hc : c.Distinct)
    (hordered : a.Numbers Number.IsOrdered) :
    (a.same b = true ↔ ∀ path, Option.Rel Alike (a.walk? path) (b.walk? path)) ∧
    (∀ i x, (number (.int i)).same (number (.float x)) = true ↔
      (ofFloat? x).bind Binary64.toInt? = some (nearestInt i.toInt)) ∧
    a.same a = true ∧
    (a.same b = true → b.same a = true) ∧
    (a.same b = true → b.same c = true → (a.same c = true ↔ IntegersAgree a c)) ∧
    (a.Numbers Number.IsDouble → c.Numbers Number.IsDouble →
      a.same b = true → b.same c = true → a.same c = true) := by
  refine ⟨same_iff_walk? ha hb, Number.same_int_float_iff, same_self ha hordered,
    same_symm ha hb, same_trans_iff ha hb hc, ?_⟩
  intro hdouble hdouble' hab hbc
  exact (same_trans_iff ha hb hc hab hbc).mpr
    (integersAgree_of_isDouble ha hb hc hdouble hdouble' hab hbc)

/-- The fields in one order and in the other one, with an integer and with a double. -/
theorem same_laws_permuted :
    let tags : Value := .sequence [.text "x", .null]
    let double := Float.ofBits 0x4000000000000000
    let a : Value := .mapping [("size", .number (.int 2)), ("tags", tags)]
    let b : Value := .mapping [("tags", tags), ("size", .number (.float double))]
    let c : Value := .mapping [("tags", tags), ("size", .number (.int 2))]
    a.Distinct ∧ b.Distinct ∧ c.Distinct ∧ a.Numbers Number.IsOrdered ∧
      a.same a = true ∧ b.same a = true ∧ a.same c = true := by
  intro tags double a b c
  have htags : tags.Distinct := by
    refine .sequence ?_
    simp [Distinct.text, Distinct.null]
  have hdistinct : ∀ n, (mapping [("size", .number n), ("tags", tags)]).Distinct ∧
      (mapping [("tags", tags), ("size", .number n)]).Distinct := fun n =>
    ⟨.mapping (by simp) (by simp [htags, Distinct.number]),
      .mapping (by simp) (by simp [htags, Distinct.number])⟩
  have hnumbers : ∀ P : Number → Prop, P (.int 2) → a.Numbers P ∧ c.Numbers P := by
    intro P htwo
    have htags' : tags.Numbers P := by
      refine .sequence ?_
      simp [Numbers.text, Numbers.null]
    exact ⟨.mapping (by simp [htags', Numbers.number htwo]),
      .mapping (by simp [htags', Numbers.number htwo])⟩
  have hordered : a.Numbers Number.IsOrdered := (hnumbers _ trivial).1
  obtain ⟨hdouble, hdouble'⟩ := hnumbers Number.IsDouble (nearestInt_of_natAbs_le (by decide))
  have ha : a.Distinct := (hdistinct (.int 2)).1
  have hb : b.Distinct := (hdistinct (.float double)).2
  have hc : c.Distinct := (hdistinct (.int 2)).2
  have hab : a.same b = true := by decide +kernel
  have hbc : b.same c = true := by decide +kernel
  obtain ⟨-, -, hself, hsymm, -, htrans⟩ := same_laws ha hb hc hordered
  exact ⟨ha, hb, hc, hordered, hself, hsymm hab, htrans hdouble hdouble' hab hbc⟩

/-- An integer, the double it is rounded to, and the integer that this double is. -/
theorem same_not_trans :
    let odd : Value := .number (.int 9007199254740993)
    let double : Value := .number (.float (Float.ofBits 0x4340000000000000))
    let even : Value := .number (.int 9007199254740992)
    odd.same double = true ∧ double.same even = true ∧ odd.same even = false := by
  decide

end Value

end Stencil
