import Stencil.Json.Reader
import Stencil.Value.Json

/-!
# Trees as they are read

A JSON tree can hold fields twice and doubles that no text denotes. This file fixes

* the trees for which that is not so (`Json.Decoded`): every tree that is read is one of them
  (`Json.decoded_of_read?`);
* which of them survive the way through values and back: those in which every integer fits 64 bits
  with its sign (`Json.Decoded.toJson_ofJson`).
-/

namespace Stencil

/-! ## 1. Numbers and names -/

namespace Json

mutual

/-- The numbers of a tree, in the order in which they are written. -/
def numerals : Json → List Numeral
  | .null => []
  | .bool _ => []
  | .number n => [n]
  | .text _ => []
  | .array items => itemNumerals items
  | .object fields => fieldNumerals fields

/-- The numbers of the elements of an array. -/
def itemNumerals : List Json → List Numeral
  | [] => []
  | item :: rest => numerals item ++ itemNumerals rest

/-- The numbers of the fields of an object. -/
def fieldNumerals : List (String × Json) → List Numeral
  | [] => []
  | (_, tree) :: rest => numerals tree ++ fieldNumerals rest

end

mutual

/-- Has every object of a tree each field only once? -/
def isDistinct : Json → Bool
  | .null => true
  | .bool _ => true
  | .number _ => true
  | .text _ => true
  | .array items => itemsDistinct items
  | .object fields => decide (fields.map Prod.fst).Nodup && fieldsDistinct fields

/-- The same of the elements of an array. -/
def itemsDistinct : List Json → Bool
  | [] => true
  | item :: rest => isDistinct item && itemsDistinct rest

/-- The same of what the fields of an object hold. -/
def fieldsDistinct : List (String × Json) → Bool
  | [] => true
  | (_, tree) :: rest => isDistinct tree && fieldsDistinct rest

end

/-- Are the doubles among these numbers finite? -/
def AllFinite (ns : List Numeral) : Prop :=
  ∀ x, .float x ∈ ns → x.isFinite = true

/-- A tree that a text can denote. -/
structure Decoded (tree : Json) : Prop where
  distinct : tree.isDistinct = true
  finite : AllFinite tree.numerals

theorem mem_fieldNumerals {fields : List (String × Json)} {n : Numeral} :
    n ∈ fieldNumerals fields ↔ ∃ field ∈ fields, n ∈ field.2.numerals := by
  induction fields with
  | nil => simp [fieldNumerals]
  | cons field rest ih => simp [fieldNumerals, ih]

theorem fieldsDistinct_iff {fields : List (String × Json)} :
    fieldsDistinct fields = true ↔ ∀ field ∈ fields, field.2.isDistinct = true := by
  induction fields with
  | nil => simp [fieldsDistinct]
  | cons field rest ih => simp [fieldsDistinct, ih]

/-! ## 2. Reading -/

theorem AllFinite.append {ns ms : List Numeral} (hn : AllFinite ns) (hm : AllFinite ms) :
    AllFinite (ns ++ ms) :=
  fun x hx => (List.mem_append.mp hx).elim (hn x) (hm x)

theorem allFinite_nil : AllFinite [] :=
  fun _ hx => absurd hx List.not_mem_nil

theorem isFinite_of_numeralOf? {negative : Bool} {l : Literal} {x : Float}
    (h : numeralOf? negative l = some (.float x)) : x.isFinite = true := by
  simp only [numeralOf?] at h
  split at h
  · cases h
  · split at h
    · cases h
    · obtain ⟨hfinite, heq⟩ := Option.ite_none_right_eq_some.mp h
      cases heq
      exact hfinite

theorem allFinite_of_readNumber {cs rest : List Char} {tree : Json}
    (h : readNumber cs = some (tree, rest)) : AllFinite tree.numerals := by
  simp only [readNumber] at h
  split at h
  · cases h
  · obtain ⟨-, hsome⟩ := Option.ite_none_right_eq_some.mp h
    obtain ⟨n, hn, heq⟩ := Option.map_eq_some_iff.mp hsome
    obtain ⟨rfl, rfl⟩ := Prod.mk.inj heq
    intro x hx
    obtain rfl := List.mem_singleton.mp hx
    exact isFinite_of_numeralOf? hn

/-- With this much fuel, the three readers read finite numbers only. -/
structure ReadsFinite (fuel : Nat) : Prop where
  value : ∀ {depth cs tree rest}, readValue fuel depth cs = some (tree, rest) →
    AllFinite tree.numerals
  items : ∀ {depth cs items rest}, readItems fuel depth cs = some (items, rest) →
    AllFinite (itemNumerals items)
  fields : ∀ {depth cs fields rest}, readFields fuel depth cs = some (fields, rest) →
    AllFinite (fieldNumerals fields)

namespace ReadsFinite

variable {fuel depth : Nat} {cs rest : List Char}

theorem value_succ (hfuel : ReadsFinite fuel) {tree : Json}
    (h : readValue (fuel + 1) depth cs = some (tree, rest)) : AllFinite tree.numerals := by
  rw [readValue.eq_def] at h
  simp only at h
  split at h
  · cases h
    exact allFinite_nil
  · cases h
    exact allFinite_nil
  · cases h
    exact allFinite_nil
  · obtain ⟨⟨s, after⟩, -, heq⟩ := Option.map_eq_some_iff.mp h
    cases heq
    exact allFinite_nil
  · split at h
    · cases h
    · split at h
      · cases h
        exact allFinite_nil
      · obtain ⟨⟨items, after⟩, hread, heq⟩ := Option.map_eq_some_iff.mp h
        cases heq
        exact hfuel.items hread
  · split at h
    · cases h
    · split at h
      · cases h
        exact allFinite_nil
      · obtain ⟨⟨fields, after⟩, hread, heq⟩ := Option.map_eq_some_iff.mp h
        cases heq
        exact hfuel.fields hread
  · exact allFinite_of_readNumber h

theorem items_succ (hfuel : ReadsFinite fuel) {items : List Json}
    (h : readItems (fuel + 1) depth cs = some (items, rest)) : AllFinite (itemNumerals items) := by
  rw [readItems] at h
  split at h
  · cases h
  · next item after hitem =>
    split at h
    · obtain ⟨⟨others, behind⟩, hothers, heq⟩ := Option.map_eq_some_iff.mp h
      cases heq
      exact (hfuel.value hitem).append (hfuel.items hothers)
    · cases h
      exact (hfuel.value hitem).append allFinite_nil
    · cases h

theorem fields_succ (hfuel : ReadsFinite fuel) {fields : List (String × Json)}
    (h : readFields (fuel + 1) depth cs = some (fields, rest)) :
    AllFinite (fieldNumerals fields) := by
  rw [readFields.eq_def] at h
  simp only at h
  split at h
  · split at h
    · cases h
    · split at h
      · split at h
        · cases h
        · next tree after htree =>
          split at h
          · obtain ⟨⟨others, behind⟩, hothers, heq⟩ := Option.map_eq_some_iff.mp h
            cases heq
            exact (hfuel.value htree).append (hfuel.fields hothers)
          · cases h
            exact (hfuel.value htree).append allFinite_nil
          · cases h
      · cases h
  · cases h

end ReadsFinite

/-- Whatever is read, its numbers are finite. -/
theorem readsFinite (fuel : Nat) : ReadsFinite fuel := by
  induction fuel with
  | zero =>
    refine ⟨fun h => ?_, fun h => ?_, fun h => ?_⟩
    · rw [readValue] at h
      cases h
    · rw [readItems] at h
      cases h
    · rw [readFields] at h
      cases h
  | succ fuel ih => exact ⟨ih.value_succ, ih.items_succ, ih.fields_succ⟩

/-! ## 3. Leaving out repeated fields -/

mutual

theorem mem_numerals_of_collapse : ∀ {tree : Json} {n : Numeral},
    n ∈ (collapse tree).numerals → n ∈ tree.numerals
  | .null, _, h | .bool _, _, h | .number _, _, h | .text _, _, h => h
  | .array items, _, h => mem_itemNumerals_of_collapse h
  | .object fields, n, h => by
    obtain ⟨field, hfield, hn⟩ := mem_fieldNumerals.mp h
    have hmem : field ∈ collapseFields fields :=
      (Dictionary.mem_of_mem_extend hfield).resolve_left List.not_mem_nil
    exact mem_fieldNumerals_of_collapse (mem_fieldNumerals.mpr ⟨field, hmem, hn⟩)

theorem mem_itemNumerals_of_collapse : ∀ {items : List Json} {n : Numeral},
    n ∈ itemNumerals (collapseItems items) → n ∈ itemNumerals items
  | [], _, h => h
  | item :: rest, n, h => by
    rw [collapseItems, itemNumerals, List.mem_append] at h
    rw [itemNumerals, List.mem_append]
    exact h.imp mem_numerals_of_collapse mem_itemNumerals_of_collapse

theorem mem_fieldNumerals_of_collapse : ∀ {fields : List (String × Json)} {n : Numeral},
    n ∈ fieldNumerals (collapseFields fields) → n ∈ fieldNumerals fields
  | [], _, h => h
  | (name, tree) :: rest, n, h => by
    rw [collapseFields, fieldNumerals, List.mem_append] at h
    rw [fieldNumerals, List.mem_append]
    exact h.imp mem_numerals_of_collapse mem_fieldNumerals_of_collapse

end

mutual

theorem isDistinct_collapse : ∀ tree : Json, (collapse tree).isDistinct = true
  | .null | .bool _ | .number _ | .text _ => rfl
  | .array items => itemsDistinct_collapse items
  | .object fields => by
    have hnone : (([] : List (String × Json)).map Prod.fst).Nodup := List.nodup_nil
    have hnames : ((Dictionary.ofList (collapseFields fields)).map Prod.fst).Nodup :=
      Dictionary.keys_extend_nodup hnone _
    rw [collapse, isDistinct, Bool.and_eq_true]
    refine ⟨decide_eq_true hnames, fieldsDistinct_iff.mpr fun field hfield => ?_⟩
    exact fieldsDistinct_iff.mp (fieldsDistinct_collapse fields) field
      ((Dictionary.mem_of_mem_extend hfield).resolve_left List.not_mem_nil)

theorem itemsDistinct_collapse : ∀ items : List Json, itemsDistinct (collapseItems items) = true
  | [] => rfl
  | item :: rest => by
    rw [collapseItems, itemsDistinct, isDistinct_collapse item, itemsDistinct_collapse rest]
    rfl

theorem fieldsDistinct_collapse : ∀ fields : List (String × Json),
    fieldsDistinct (collapseFields fields) = true
  | [] => rfl
  | (name, tree) :: rest => by
    rw [collapseFields, fieldsDistinct, isDistinct_collapse tree, fieldsDistinct_collapse rest]
    rfl

end

/-- **What is read is decoded.** -/
theorem decoded_of_read? {text : String} {tree : Json} (h : read? text = some tree) :
    tree.Decoded := by
  obtain ⟨raw, hraw, rfl⟩ := Option.map_eq_some_iff.mp h
  refine ⟨isDistinct_collapse raw, fun x hx => ?_⟩
  have hfinite : AllFinite raw.numerals := by
    simp only [readRaw?, readWithin?] at hraw
    split at hraw
    · cases hraw
    · next read rest hread =>
      obtain ⟨-, heq⟩ := Option.ite_none_right_eq_some.mp hraw
      cases heq
      exact (readsFinite _).value hread
  exact hfinite x (mem_numerals_of_collapse hx)

end Json

/-! ## 4. Values and back -/

namespace Value

open Json

/-- A number that fits survives. -/
theorem jsonOfNumber_numberOf {n : Numeral}
    (hint : ∀ i, n = .int i → Int64.minValue.toInt ≤ i ∧ i ≤ Int64.maxValue.toInt)
    (hfloat : ∀ x, n = .float x → x.isFinite = true) : jsonOfNumber (numberOf n) = .number n := by
  cases n with
  | int i =>
    have hi : Number.int64? i = some (Int64.ofInt i) := if_pos (hint i rfl)
    rw [numberOf, hi, jsonOfNumber, Number.toInt_of_int64? hi]
  | float x => rw [numberOf, jsonOfNumber, if_pos (hfloat x rfl)]

/-- What the numbers of a tree have to be for the tree to survive. -/
def Kept (ns : List Numeral) : Prop :=
  ∀ n ∈ ns, (∀ i, n = .int i → Int64.minValue.toInt ≤ i ∧ i ≤ Int64.maxValue.toInt) ∧
    ∀ x, n = .float x → x.isFinite = true

theorem map_fst_ofJsonFields (fields : List (String × Json)) :
    (ofJsonFields fields).map Prod.fst = fields.map Prod.fst := by
  induction fields with
  | nil => rfl
  | cons field rest ih => rw [ofJsonFields, List.map_cons, List.map_cons, ih]

mutual

theorem toJson_ofJson : ∀ {tree : Json}, tree.isDistinct = true → Kept tree.numerals →
    (ofJson tree).toJson = tree
  | .null, _, _ | .bool _, _, _ | .text _, _, _ => rfl
  | .number n, _, hkept => by
    obtain ⟨hint, hfloat⟩ := hkept n (List.mem_singleton.mpr rfl)
    exact jsonOfNumber_numberOf hint hfloat
  | .array items, hdistinct, hkept => by
    rw [ofJson, toJson, toJsonItems_ofJsonItems hdistinct hkept]
  | .object fields, hdistinct, hkept => by
    rw [isDistinct, Bool.and_eq_true, decide_eq_true_iff] at hdistinct
    have hnames : ((ofJsonFields fields).map Prod.fst).Nodup := by
      rw [map_fst_ofJsonFields]
      exact hdistinct.1
    rw [ofJson, toJson, Dictionary.ofList_of_nodup hnames,
      toJsonFields_ofJsonFields hdistinct.2 hkept]

theorem toJsonItems_ofJsonItems : ∀ {items : List Json}, itemsDistinct items = true →
    Kept (itemNumerals items) → toJsonItems (ofJsonItems items) = items
  | [], _, _ => rfl
  | item :: rest, hdistinct, hkept => by
    rw [itemsDistinct, Bool.and_eq_true] at hdistinct
    rw [itemNumerals] at hkept
    rw [ofJsonItems, toJsonItems,
      toJson_ofJson hdistinct.1 fun n hn => hkept n (List.mem_append_left _ hn),
      toJsonItems_ofJsonItems hdistinct.2 fun n hn => hkept n (List.mem_append_right _ hn)]

theorem toJsonFields_ofJsonFields : ∀ {fields : List (String × Json)},
    fieldsDistinct fields = true → Kept (fieldNumerals fields) →
    toJsonFields (ofJsonFields fields) = fields
  | [], _, _ => rfl
  | (name, tree) :: rest, hdistinct, hkept => by
    rw [fieldsDistinct, Bool.and_eq_true] at hdistinct
    rw [fieldNumerals] at hkept
    rw [ofJsonFields, toJsonFields,
      toJson_ofJson hdistinct.1 fun n hn => hkept n (List.mem_append_left _ hn),
      toJsonFields_ofJsonFields hdistinct.2 fun n hn => hkept n (List.mem_append_right _ hn)]

end

end Value

/-- **A decoded tree survives the way through values**, if its integers fit 64 bits. -/
theorem Json.Decoded.toJson_ofJson {tree : Json} (h : tree.Decoded)
    (hints : ∀ i, .int i ∈ tree.numerals →
      Int64.minValue.toInt ≤ i ∧ i ≤ Int64.maxValue.toInt) :
    (Value.ofJson tree).toJson = tree := by
  refine Value.toJson_ofJson h.distinct fun n hn => ⟨?_, ?_⟩
  · rintro i rfl
    exact hints i hn
  · rintro x rfl
    exact h.finite x hn

end Stencil
