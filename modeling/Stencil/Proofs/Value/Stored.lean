import Stencil.Proofs.Decimal.Doubles
import Stencil.Proofs.Dictionary
import Stencil.Proofs.Json
import Stencil.Proofs.Number
import Stencil.Proofs.Value
import Stencil.Value.Stored

/-!
# Values that are stored and restored

There are two ways from a value to JSON: it is stored in a medium, or turned into a tree. And there
are two ways back: a tree is restored, or read as a value. This file fixes

* that a map which respects how two media put their forms together takes what is stored in the one
  to what is stored in the other (`Medium.Carries.storeIn`); printing is such a map from trees to
  texts (`Medium.carries_render`);
* that both ways to JSON agree (`Value.storeIn_jsonTree`, `Value.stored_eq_render`), and both ways
  back (`Value.restore?_eq`), also on a text whose objects repeat fields
  (`Value.restore?_readRaw?`);
* that values without infinities and NaN come back as they were (`Value.ofJson_toJson`).
-/

namespace Stencil

/-! ## 1. Commas -/

namespace Json

theorem renderItems_eq (items : List Json) :
    renderItems items = ",".intercalate (items.map render) := by
  induction items with
  | nil => rfl
  | cons item rest ih =>
    cases rest with
    | nil => rw [renderItems, List.map_singleton, String.intercalate_singleton]
    | cons next more =>
      rw [renderItems, ih, List.map_cons, List.map_cons, List.map_cons,
        String.intercalate_cons_cons]
      exact fun h => List.cons_ne_nil next more h

theorem renderFields_eq (fields : List (String × Json)) :
    renderFields fields =
      ",".intercalate (fields.map fun field => renderText field.1 ++ ":" ++ field.2.render) := by
  induction fields with
  | nil => rfl
  | cons field rest ih =>
    obtain ⟨name, tree⟩ := field
    cases rest with
    | nil => rw [renderFields, List.map_singleton, String.intercalate_singleton]
    | cons next more =>
      rw [renderFields, ih, List.map_cons, List.map_cons, List.map_cons,
        String.intercalate_cons_cons]
      exact fun h => List.cons_ne_nil next more h

/-- What is not finite is written as null. -/
theorem renderNumeral_of_not_finite {x : Float} (h : x.isFinite = false) :
    renderNumeral (.float x) = "null" := by
  rw [renderNumeral, Binary64.ofFloat?_eq_none_iff.mpr h]

end Json

/-- An integer, or a double that is neither infinite nor NaN. -/
def Number.IsFinite : Number → Prop
  | .int _ => True
  | .float x => x.isFinite = true

namespace Value

/-! ## 2. Storing -/

/-- A map from what one medium stores to what another one stores, which respects how values are put
    together. -/
structure Medium.Carries {α β : Type} (m : Medium α) (m' : Medium β) (f : α → β) : Prop where
  null : f m.null = m'.null
  bool (b : Bool) : f (m.bool b) = m'.bool b
  int (i : Int64) : f (m.int i) = m'.int i
  float (x : Float) : f (m.float x) = m'.float x
  text (s : String) : f (m.text s) = m'.text s
  sequence (items : List α) : f (m.sequence items) = m'.sequence (items.map f)
  mapping (fields : List (String × α)) :
    f (m.mapping fields) = m'.mapping (fields.map fun field => (field.1, f field.2))

section

variable {α β : Type} {m : Medium α} {m' : Medium β} {f : α → β}

mutual

/-- **A value is carried from one medium to the other.** -/
theorem Medium.Carries.storeIn (h : m.Carries m' f) : ∀ v : Value, f (v.storeIn m) = v.storeIn m'
  | .null => h.null
  | .bool b => h.bool b
  | .number (.int i) => h.int i
  | .number (.float x) => h.float x
  | .text s => h.text s
  | .sequence items => by
    rw [Value.storeIn, Value.storeIn, h.sequence, h.storeItems items]
  | .mapping fields => by
    rw [Value.storeIn, Value.storeIn, h.mapping, h.storeFields fields]

theorem Medium.Carries.storeItems (h : m.Carries m' f) : ∀ items : List Value,
    (Value.storeItems m items).map f = Value.storeItems m' items
  | [] => rfl
  | item :: rest => by
    rw [Value.storeItems, Value.storeItems, List.map_cons, h.storeIn item, h.storeItems rest]

theorem Medium.Carries.storeFields (h : m.Carries m' f) : ∀ fields : List (String × Value),
    (Value.storeFields m fields).map (fun field => (field.1, f field.2)) =
      Value.storeFields m' fields
  | [] => rfl
  | (name, value) :: rest => by
    rw [Value.storeFields, Value.storeFields, List.map_cons, h.storeIn value, h.storeFields rest]

end

end

/-- **Printing carries trees to texts.** -/
theorem Medium.carries_render : Medium.jsonTree.Carries .jsonText Json.render where
  null := rfl
  bool b := by cases b <;> rfl
  int _ := rfl
  float x := by
    show Json.render (if x.isFinite then .number (.float x) else .null) = _
    cases hfinite : x.isFinite with
    | false => exact (Json.renderNumeral_of_not_finite hfinite).symm
    | true => rfl
  text _ := rfl
  sequence items := by
    show "[" ++ Json.renderItems items ++ "]" = _
    rw [Json.renderItems_eq]
    rfl
  mapping fields := by
    show "\x7b" ++ Json.renderFields fields ++ "\x7d" = _
    rw [Json.renderFields_eq]
    simp only [jsonText, List.map_map]
    rfl

mutual

/-- **A stored tree is the tree of the value.** -/
theorem storeIn_jsonTree : ∀ v : Value, v.storeIn .jsonTree = v.toJson
  | .null | .bool _ | .number (.int _) | .number (.float _) | .text _ => rfl
  | .sequence items => congrArg Json.array (storeItems_jsonTree items)
  | .mapping fields => congrArg Json.object (storeFields_jsonTree fields)

theorem storeItems_jsonTree : ∀ items : List Value,
    storeItems .jsonTree items = toJsonItems items
  | [] => rfl
  | item :: rest => by
    rw [storeItems, toJsonItems, storeIn_jsonTree item, storeItems_jsonTree rest]

theorem storeFields_jsonTree : ∀ fields : List (String × Value),
    storeFields .jsonTree fields = toJsonFields fields
  | [] => rfl
  | (name, value) :: rest => by
    rw [storeFields, toJsonFields, storeIn_jsonTree value, storeFields_jsonTree rest]

end

/-- **A stored text is the text of the tree.** -/
theorem stored_eq_render (v : Value) : v.stored = v.toJson.render := by
  rw [stored, ← Medium.carries_render.storeIn, storeIn_jsonTree]

/-! ## 3. Restoring -/

mutual

/-- **Every tree is restored**, and to the value that it is read as. -/
theorem restore?_eq : ∀ tree : Json, restore? tree = some (ofJson tree)
  | .null | .bool _ | .text _ | .number (.float _) => rfl
  | .number (.int i) => by
    show restoreScalar? (.number (.int i)) = some (.number (numberOf (.int i)))
    rw [restoreScalar?, numberOf]
    cases hfits : Number.int64? i with
    | none => simp [Json.null?, Json.bool?, Json.int64?, Json.int?, Json.float?, hfits]
    | some a => simp [Json.null?, Json.bool?, Json.int64?, Json.int?, ofInt64, hfits]
  | .array items => by
    rw [restore?, restoreItems?_eq items]
    rfl
  | .object fields => by
    rw [restore?, restoreFields?_eq fields]
    rfl

theorem restoreItems?_eq : ∀ items : List Json, restoreItems? items = some (ofJsonItems items)
  | [] => rfl
  | item :: rest => by
    rw [restoreItems?, restore?_eq item, restoreItems?_eq rest]
    rfl

theorem restoreFields?_eq : ∀ fields : List (String × Json),
    restoreFields? fields = some (ofJsonFields fields)
  | [] => rfl
  | (name, tree) :: rest => by
    rw [restoreFields?, restore?_eq tree, restoreFields?_eq rest]
    rfl

end

/-- The fields of a mapping, one by one. -/
theorem ofJsonFields_eq_map (fields : List (String × Json)) :
    ofJsonFields fields = fields.map fun field => (field.1, ofJson field.2) := by
  induction fields with
  | nil => rfl
  | cons field rest ih => rw [ofJsonFields, ih, List.map_cons]

mutual

/-- Repeated fields can be collapsed before a tree is read as a value. -/
theorem ofJson_collapse : ∀ tree : Json, ofJson tree.collapse = ofJson tree
  | .null | .bool _ | .text _ | .number _ => rfl
  | .array items => congrArg Value.sequence (ofJsonItems_collapseItems items)
  | .object fields => by
    rw [Json.collapse, ofJson, ofJson, ofJsonFields_eq_map, Dictionary.map_ofList,
      Dictionary.ofList_ofList, ← ofJsonFields_eq_map, ofJsonFields_collapseFields fields]

theorem ofJsonItems_collapseItems : ∀ items : List Json,
    ofJsonItems (Json.collapseItems items) = ofJsonItems items
  | [] => rfl
  | item :: rest => by
    rw [Json.collapseItems, ofJsonItems, ofJsonItems, ofJson_collapse item,
      ofJsonItems_collapseItems rest]

theorem ofJsonFields_collapseFields : ∀ fields : List (String × Json),
    ofJsonFields (Json.collapseFields fields) = ofJsonFields fields
  | [] => rfl
  | (name, tree) :: rest => by
    rw [Json.collapseFields, ofJsonFields, ofJsonFields, ofJson_collapse tree,
      ofJsonFields_collapseFields rest]

end

/-- **A text is restored to the value that its tree is read as**, repeated fields or not. -/
theorem restore?_readRaw? (text : String) :
    (Json.readRaw? text).bind restore? = (Json.read? text).map ofJson := by
  rw [Json.read?, Option.map_map]
  cases Json.readRaw? text with
  | none => rfl
  | some tree =>
    show restore? tree = some (ofJson tree.collapse)
    rw [restore?_eq, ofJson_collapse]

/-! ## 4. There and back -/

theorem ofJsonItems_eq_map (items : List Json) : ofJsonItems items = items.map ofJson := by
  induction items with
  | nil => rfl
  | cons item rest ih => rw [ofJsonItems, ih, List.map_cons]

theorem toJsonItems_eq_map (items : List Value) : toJsonItems items = items.map toJson := by
  induction items with
  | nil => rfl
  | cons item rest ih => rw [toJsonItems, ih, List.map_cons]

theorem toJsonFields_eq_map (fields : List (String × Value)) :
    toJsonFields fields = fields.map fun field => (field.1, toJson field.2) := by
  induction fields with
  | nil => rfl
  | cons field rest ih => rw [toJsonFields, ih, List.map_cons]

theorem ofJsonItems_toJsonItems {items : List Value}
    (h : ∀ v ∈ items, ofJson v.toJson = v) : ofJsonItems (toJsonItems items) = items := by
  rw [toJsonItems_eq_map, ofJsonItems_eq_map, List.map_map]
  exact (List.map_congr_left h).trans (List.map_id items)

theorem ofJsonFields_toJsonFields {fields : List (String × Value)}
    (h : ∀ field ∈ fields, ofJson field.2.toJson = field.2) :
    ofJsonFields (toJsonFields fields) = fields := by
  rw [toJsonFields_eq_map, ofJsonFields_eq_map, List.map_map]
  refine (List.map_congr_left fun field hfield => ?_).trans (List.map_id fields)
  exact Prod.ext rfl (h field hfield)

/-- A number comes back as it was, an integer as an integer and a double as a double. -/
theorem ofJson_jsonOfNumber {n : Number} (h : n.IsFinite) :
    ofJson (jsonOfNumber n) = .number n := by
  cases n with
  | int a =>
    show Value.number (numberOf (.int a.toInt)) = _
    rw [numberOf, Number.int64?_toInt]
  | float x =>
    have hx : x.isFinite = true := h
    rw [jsonOfNumber, if_pos hx]
    rfl

/-- **A value comes back as it was**, with its fields in their order. -/
theorem ofJson_toJson {v : Value} (hdistinct : v.Distinct) (hfinite : v.Numbers Number.IsFinite) :
    ofJson v.toJson = v := by
  induction hdistinct with
  | null | bool | text => rfl
  | number n =>
    cases hfinite with
    | number h => exact ofJson_jsonOfNumber h
  | sequence _ ih =>
    cases hfinite with
    | sequence hitems =>
      rw [toJson, ofJson, ofJsonItems_toJsonItems fun v hv => ih v hv (hitems v hv)]
  | mapping hnames _ ih =>
    cases hfinite with
    | mapping hfields =>
      rw [toJson, ofJson,
        ofJsonFields_toJsonFields fun field hfield => ih field hfield (hfields field hfield),
        Dictionary.ofList_of_nodup hnames]

/-- **The two ways to JSON and the two ways back.** Every value is stored as its tree, and as the
    text of that tree. Every tree is restored to the value it is read as, and so is every text. A
    value with distinct names and finite numbers comes back from its tree by either way as it was,
    and a decoded tree whose integers fit 64 bits comes back from its value as it was. -/
theorem codecs_agree :
    (∀ v : Value, v.storeIn .jsonTree = v.toJson ∧ v.stored = v.toJson.render) ∧
    (∀ tree : Json, restore? tree = some (ofJson tree)) ∧
    (∀ text : String, (Json.readRaw? text).bind restore? = (Json.read? text).map ofJson) ∧
    (∀ v : Value, v.Distinct → v.Numbers Number.IsFinite →
      ofJson v.toJson = v ∧ v.coerce? restore? = some v) ∧
    (∀ tree : Json, tree.Decoded →
      (∀ i, .int i ∈ tree.numerals → Int64.minValue.toInt ≤ i ∧ i ≤ Int64.maxValue.toInt) →
      (ofJson tree).toJson = tree) := by
  refine ⟨fun v => ⟨storeIn_jsonTree v, stored_eq_render v⟩, restore?_eq, restore?_readRaw?, ?_,
    fun tree hdecoded hints => hdecoded.toJson_ofJson hints⟩
  intro v hdistinct hfinite
  have hback := ofJson_toJson hdistinct hfinite
  refine ⟨hback, ?_⟩
  rw [coerce?, restore?_eq, hback]

/-- A mapping with an integer, a double that is whole and a sequence. -/
theorem codecs_agree_person :
    let double := Float.ofBits 0x4000000000000000
    let v : Value := .mapping [("name", .text "Fred"), ("age", .number (.int 2)),
      ("size", .number (.float double)), ("tags", .sequence [.null, .bool true])]
    let tree : Json := .object [("name", .text "Fred"), ("age", .number (.int 2)),
      ("size", .number (.float double)), ("tags", .array [.null, .bool true])]
    v.Distinct ∧ v.Numbers Number.IsFinite ∧ v.coerce? restore? = some v ∧
      tree.Decoded ∧ (ofJson tree).toJson = tree := by
  intro double v tree
  have htags : ∀ tag ∈ [Value.null, .bool true], tag.Distinct := by
    simp [Distinct.null, Distinct.bool]
  have hdistinct : v.Distinct := by
    refine .mapping (by decide) ?_
    simp [Distinct.text, Distinct.number, Distinct.sequence htags]
  have htags' : ∀ tag ∈ [Value.null, .bool true], tag.Numbers Number.IsFinite := by
    simp [Numbers.null, Numbers.bool]
  have hdouble : double.isFinite = true := by decide
  have hfinite : v.Numbers Number.IsFinite := by
    refine .mapping ?_
    have hage : (Value.number (.int 2)).Numbers Number.IsFinite := .number trivial
    have hsize : (Value.number (.float double)).Numbers Number.IsFinite := .number hdouble
    simp [Numbers.text, hage, hsize, Numbers.sequence htags']
  have hdecoded : tree.Decoded := by
    refine ⟨by decide, fun x hx => ?_⟩
    have hx' : x = double := by
      simpa [tree, Json.numerals, Json.fieldNumerals, Json.itemNumerals] using hx
    rw [hx', hdouble]
  obtain ⟨-, -, -, hvalue, htree⟩ := codecs_agree
  refine ⟨hdistinct, hfinite, (hvalue v hdistinct hfinite).2, hdecoded, htree tree hdecoded ?_⟩
  intro i hi
  have hi' : i = 2 := by
    simpa [tree, Json.numerals, Json.fieldNumerals, Json.itemNumerals] using hi
  rw [hi']
  decide

end Value

end Stencil
