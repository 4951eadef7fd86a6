import Stencil.Proofs.Document.Conditions
import Stencil.Proofs.Filter.Integers
import Stencil.Proofs.Value

/-!
# What literals of condition objects compare as

A condition object keeps a literal as text, and each operator reads the text in its own way. This
file fixes

* the three ways in which operators read their operand (`Operator.reading`);
* which literals are the same for an operator as their texts: all but two (`Operator.Distorts`).
  Null counts as no number and compares as false, but its text is empty and cannot be read as a
  number at all; zero is false, but its text is true;
* what a condition object of one literal evaluates to (`Condition.means_literal`).
-/

namespace Stencil

/-! ## 1. Literals -/

/-- The scalars of condition objects, with integers of 64 bits as the only numbers. -/
inductive Json.IsLiteral : Json → Prop where
  | null : IsLiteral .null
  | bool (b : Bool) : IsLiteral (.bool b)
  | int (a : Int64) : IsLiteral (.number (.int a.toInt))
  | text (s : String) : IsLiteral (.text s)

theorem Value.ofJson_int (a : Int64) : ofJson (.number (.int a.toInt)) = .number (.int a) := by
  rw [ofJson, numberOf, Number.int64?_toInt]

theorem Json.IsLiteral.isScalar {tree : Json} (h : tree.IsLiteral) :
    (Value.ofJson tree).IsScalar := by
  cases h with
  | null => exact .null
  | bool b => exact .bool b
  | int a => exact .number _
  | text s => exact .text s

namespace Value

/-- An integer is true if it is not zero. -/
theorem isTruthy_int (a : Int64) : (Value.number (.int a)).isTruthy = decide (a ≠ 0) := by
  have hzero : Binary64.HasValue 0.0 0 := .packed .zero (by decide)
  have hnearest : Binary64.nearestInt a.toInt = 0 ↔ a = 0 := by
    rw [← Int64.toInt_inj, Int64.toInt_zero]
    refine ⟨fun h => ?_, fun h => by rw [h, Binary64.nearestInt_zero]⟩
    by_contra hne
    exact Binary64.nearestInt_ne_zero hne h
  rw [isTruthy, Number.isZero, Bool.eq_iff_iff, Bool.not_eq_true', Bool.eq_false_iff, ne_eq,
    (Number.hasValue_toFloat a).beq_iff hzero, hnearest, decide_eq_true_iff]

/-- **The text of an integer is true**, that of zero too. -/
theorem isTruthy_text_int (a : Int64) : (Value.text (Number.int a).text).isTruthy = true := by
  obtain ⟨c, hc, hdigit⟩ := Decimal.exists_digit_integerText a.toInt
  have hnonempty : (Number.int a).text.isEmpty = false := by
    rw [Bool.eq_false_iff, ne_eq, String.isEmpty_iff]
    intro hempty
    rw [Number.text] at hempty
    rw [hempty] at hc
    cases hc
  have hword : Text.equalsIgnoringAsciiCase (Number.int a).text "false" = false := by
    rw [Bool.eq_false_iff, ne_eq, Text.equalsIgnoringAsciiCase, beq_iff_eq]
    intro heq
    have hletter : c.toLower ∈ "false".toList.map Char.toLower := heq ▸ List.mem_map_of_mem hc
    rw [Decimal.toLower_of_isDigit hdigit] at hletter
    have hletters : ∀ d ∈ "false".toList.map Char.toLower, d.isDigit = false := by simp
    rw [hletters c hletter] at hdigit
    cases hdigit
  rw [isTruthy, hnonempty, hword]
  rfl

end Value

/-! ## 2. Readings -/

/-- Two evaluations have the same result, or both of them fail. -/
def Outcome.Agree {α : Type} (o o' : Outcome α) : Prop :=
  ∀ a, o = .ok a ↔ o' = .ok a

theorem Outcome.Agree.of_eq {α : Type} {o o' : Outcome α} (h : o = o') : Agree o o' :=
  fun _ => by rw [h]

theorem Outcome.Agree.of_error {α : Type} {o o' : Outcome α} {error error' : EvalError}
    (h : o = .error error) (h' : o' = .error error') : Agree o o' := by
  intro a
  rw [h, h']
  exact iff_of_false nofun nofun

namespace Operator

/-- The ways to read an operand. -/
inductive Reading where
  | text
  | number
  | truth
  deriving DecidableEq, Repr

/-- What an operator takes its operand for. -/
def reading : Operator → Reading
  | .stringEquals | .stringNotEquals | .stringEqualsIgnoreCase | .stringLike => .text
  | .numberEquals | .numberNotEquals => .number
  | .numberLessThan | .numberLessThanEquals => .number
  | .numberGreaterThan | .numberGreaterThanEquals => .number
  | .bool | .null => .truth

variable {op : Operator} {left right other : Value} {test : Bool → Ordering → Bool}

theorem test_of_text (h : op.reading = .text) :
    ∃ relation, ∀ left right, op.test left right = testTexts left right relation := by
  cases op with
  | stringEquals | stringNotEquals | stringEqualsIgnoreCase | stringLike =>
    exact ⟨_, fun _ _ => rfl⟩
  | _ => cases h

theorem test_of_number (h : op.reading = .number) :
    ∃ relation, ∀ left right, op.test left right = testNumbers left right relation := by
  cases op with
  | numberEquals | numberNotEquals | numberLessThan | numberLessThanEquals | numberGreaterThan
  | numberGreaterThanEquals => exact ⟨_, fun _ _ => by rw [Operator.test]⟩
  | _ => cases h

/-- An operator on truth values asks whether the operand has the truth value that it expects. -/
theorem test_of_truth (h : op.reading = .truth) :
    ∃ expected : Value → Bool, ∀ left right,
      op.test left right = .ok (expected left == right.isTruthy) := by
  cases op with
  | bool | null => exact ⟨_, fun _ _ => rfl⟩
  | _ => cases h

/-- A number test sees of its operand what it counts as. -/
theorem testNumbers_congr (h : Filter.number? filterName right = Filter.number? filterName other) :
    testNumbers left right test = testNumbers left other test := by
  rw [testNumbers, testNumbers, h]

theorem testNumbers_of_left_error {error : EvalError}
    (h : Filter.number? filterName left = .error error) :
    testNumbers left right test = .error error := by
  rw [testNumbers, h]

theorem testNumbers_of_right_error {n : Option Number} {error : EvalError}
    (hleft : Filter.number? filterName left = .ok n)
    (hright : Filter.number? filterName right = .error error) :
    testNumbers left right test = .error error := by
  rw [testNumbers, hleft, hright]

/-- A number test does not hold of null. -/
theorem testNumbers_null {n : Option Number} (h : Filter.number? filterName left = .ok n) :
    testNumbers left .null test = .ok false := by
  rw [testNumbers, h]
  cases n <;> rfl

/-! ## 3. Literals and their texts -/

variable {v : Value} {tree : Json}

/-- **Where a literal does not compare as its text**: null as a number, where the value is one to
    compare with at all, and zero as a truth value. -/
inductive Distorts (v : Value) : Operator → Json → Prop where
  | null {op : Operator} {n : Option Number} (hop : op.reading = .number)
      (hv : Filter.number? filterName v = .ok n) : Distorts v op .null
  | zero {op : Operator} (hop : op.reading = .truth) : Distorts v op (.number (.int 0))

/-- A scalar is the same text as its text. -/
theorem test_display_of_text (h : op.reading = .text) (hliteral : tree.IsLiteral) :
    op.test v (.text (Value.ofJson tree).display) = op.test v (Value.ofJson tree) := by
  obtain ⟨relation, htest⟩ := test_of_text h
  have hscalar : Filter.scalarText filterName (Value.ofJson tree) =
      .ok (Value.ofJson tree).display := by
    obtain ⟨hsequence, hmapping⟩ := hliteral.isScalar
    cases hvalue : Value.ofJson tree with
    | sequence items => exact absurd (hvalue ▸ rfl) hsequence
    | mapping fields => exact absurd (hvalue ▸ rfl) hmapping
    | _ => rfl
  rw [htest, htest, testTexts, testTexts, hscalar]
  rfl

/-- Null compares as no number, and fails as the empty text. -/
theorem test_null_of_number {n : Option Number} (h : op.reading = .number)
    (hv : Filter.number? filterName v = .ok n) :
    op.test v (.text "") = .error (.typeMismatch (.textNotNumber filterName "")) ∧
      op.test v .null = .ok false := by
  obtain ⟨relation, htest⟩ := test_of_number h
  have hunread : Filter.number? filterName (.text "") =
      .error (.typeMismatch (.textNotNumber filterName "")) := rfl
  rw [htest, htest]
  exact ⟨testNumbers_of_right_error hv hunread, testNumbers_null hv⟩

/-- Zero is false, and its text is true. -/
theorem test_zero_of_truth (h : op.reading = .truth) :
    ∃ b, op.test v (.text (Number.int 0).text) = .ok b ∧
      op.test v (.number (.int 0)) = .ok !b := by
  obtain ⟨expected, htest⟩ := test_of_truth h
  have hzero : (Value.number (.int 0)).isTruthy = false := Value.isTruthy_int 0
  rw [htest, htest, Value.isTruthy_text_int, hzero]
  refine ⟨_, rfl, ?_⟩
  cases expected v <;> rfl

/-- A truth value is no number, and its text is none. -/
theorem agree_bool_of_number (h : op.reading = .number) (b : Bool) :
    Outcome.Agree (op.test v (.text (Value.bool b).display)) (op.test v (.bool b)) := by
  obtain ⟨relation, htest⟩ := test_of_number h
  rw [htest, htest]
  cases hv : Filter.number? filterName v with
  | error error => exact .of_error (testNumbers_of_left_error hv) (testNumbers_of_left_error hv)
  | ok n =>
    have htext : Filter.number? filterName (.text (Value.bool b).display) =
        .error (.typeMismatch (.textNotNumber filterName (Value.bool b).display)) := by
      cases b <;> rfl
    exact .of_error (testNumbers_of_right_error hv htext) (testNumbers_of_right_error hv rfl)

/-- **What operators on numbers find in a text.** -/
theorem agree_display_of_number (h : op.reading = .number) (hliteral : tree.IsLiteral)
    (hdistorts : ¬Distorts v op tree) :
    Outcome.Agree (op.test v (.text (Value.ofJson tree).display))
      (op.test v (Value.ofJson tree)) := by
  obtain ⟨relation, htest⟩ := test_of_number h
  cases hliteral with
  | null =>
    rw [htest, htest]
    cases hv : Filter.number? filterName v with
    | error error => exact .of_error (testNumbers_of_left_error hv) (testNumbers_of_left_error hv)
    | ok n => exact absurd (.null h hv) hdistorts
  | bool b => exact agree_bool_of_number h b
  | int a =>
    have htext : (Value.text (Number.int a).text).ReadsAs a := .text (Number.parse?_text_int a)
    have hread := (htext.number? filterName).trans (Value.ReadsAs.number.number? filterName).symm
    rw [Value.ofJson_int, htest, htest]
    exact .of_eq (testNumbers_congr hread)
  | text s => exact .of_eq rfl

/-- **What operators on truth values find in a text.** -/
theorem agree_display_of_truth (h : op.reading = .truth) (hliteral : tree.IsLiteral)
    (hdistorts : ¬Distorts v op tree) :
    Outcome.Agree (op.test v (.text (Value.ofJson tree).display))
      (op.test v (Value.ofJson tree)) := by
  obtain ⟨expected, htest⟩ := test_of_truth h
  have hsame : (Value.text (Value.ofJson tree).display).isTruthy =
      (Value.ofJson tree).isTruthy := by
    cases hliteral with
    | null => rfl
    | bool b => cases b <;> rfl
    | int a =>
      have hzero : a ≠ 0 := by
        rintro rfl
        exact hdistorts (.zero h)
      rw [Value.ofJson_int, Value.isTruthy_int, decide_eq_true hzero]
      exact Value.isTruthy_text_int a
    | text s => rfl
  rw [htest, htest, hsame]
  exact .of_eq rfl

/-- **A literal compares as itself**, unless its text distorts it. -/
theorem agree_display_iff (hliteral : tree.IsLiteral) :
    Outcome.Agree (op.test v (.text (Value.ofJson tree).display))
      (op.test v (Value.ofJson tree)) ↔ ¬Distorts v op tree := by
  constructor
  · intro hagree hdistorts
    cases hdistorts with
    | null hop hv =>
      obtain ⟨hfails, hfalse⟩ := test_null_of_number hop hv
      cases hfails.symm.trans ((hagree false).mpr hfalse)
    | zero hop =>
      obtain ⟨b, htext, hzero⟩ := test_zero_of_truth (v := v) hop
      have hflipped := hzero.symm.trans ((hagree b).mp htext)
      cases b <;> cases hflipped
  · intro hdistorts
    cases hop : op.reading with
    | text => exact .of_eq (test_display_of_text hop hliteral)
    | number => exact agree_display_of_number hop hliteral hdistorts
    | truth => exact agree_display_of_truth hop hliteral hdistorts

end Operator

/-! ## 4. Condition objects of one literal -/

namespace Condition

open Operator

variable {operator name : String} {key : Key} {tree : Json}

/-- A condition object of one entry is parsed into what the entry is parsed into. -/
theorem predicate_single (path : DocPath) (operator name : String) (tree : Json) :
    predicate path (.object [(operator, .object [(name, tree)])]) =
      entry operator (path.field operator) name tree := by
  funext options depth found
  have hobject : predicate path (.object [(operator, .object [(name, tree)])]) =
      object path [(operator, .object [(name, tree)])] := rfl
  rw [hobject]
  simp only [object, operators, entries]
  simp only [Parse.map, Parse.both, Parse.pure]
  rcases entry operator (path.field operator) name tree options depth found with ⟨_ | e, after⟩
  · rfl
  · rfl

/-- A literal under a key is a comparison with its text. -/
theorem entry_of_isLiteral (path : DocPath) (operator : String) (hkey : Key.parse? name = some key)
    (hliteral : tree.IsLiteral) :
    entry operator path name tree =
      .pure (compare key operator (Value.ofJson tree).display) := by
  rw [entry, hkey]
  cases hliteral <;> rfl

/-- A comparison with the text of a literal evaluates to what the test comes out as. -/
theorem means_single {op : Operator} {v : Value} {keys : Resolver} {context : Context}
    (hop : Operator.parse? operator = some op) (hkey : Key.parse? name = some key)
    (hv : keys.resolve key context = .ok v) (tree : Json) :
    ((⟨keys, .standard⟩ : Env).eval (compare key operator (Value.ofJson tree).display)
      context).Means
        ((op.test v (.text (Value.ofJson tree).display)).map fun b => some (.bool b)) := by
  have hcompiled : Comparison.Compiled ⟨operator, name, tree⟩
      (compare key operator (Value.ofJson tree).display) := ⟨key, hkey, rfl⟩
  have houtcome : Comparison.outcome keys context ⟨operator, name, tree⟩ =
      op.test v (.text (Value.ofJson tree).display) := by
    simp only [Comparison.outcome, hkey, hv, hop, Comparison.text]
  rw [← houtcome]
  exact means_compiled hcompiled

/-- **What a literal compares as.** A condition object of one literal is accepted, and its
    expression evaluates, under the standard filters, to what the test of the value against the text
    of the literal comes out as. This is what the test against the literal itself comes out as, but
    for null as a number and zero as a truth value. -/
theorem means_literal {op : Operator} {v : Value} {keys : Resolver} {context : Context}
    (hop : Operator.parse? operator = some op) (hkey : Key.parse? name = some key)
    (hliteral : tree.IsLiteral) (hv : keys.resolve key context = .ok v) (path : DocPath) :
    ∃ e, predicate path (.object [(operator, .object [(name, tree)])]) = .pure e ∧
      ((⟨keys, .standard⟩ : Env).eval e context).Means
        ((op.test v (.text (Value.ofJson tree).display)).map fun b => some (.bool b)) ∧
      (Outcome.Agree (op.test v (.text (Value.ofJson tree).display))
        (op.test v (Value.ofJson tree)) ↔ ¬Distorts v op tree) := by
  refine ⟨_, ?_, means_single hop hkey hv tree, agree_display_iff hliteral⟩
  rw [predicate_single, entry_of_isLiteral _ _ hkey hliteral]

/-- A text of digits equals the integer that it denotes. -/
theorem means_literal_twelve :
    let keys := Resolver.ofHandlers [(⟨"ns", "k"⟩, Handler.const (.text "12"))]
    let tree : Json := .object [("NumberEquals", .object [("ns:k", .number (.int 12))])]
    ∃ e, predicate .root tree = .pure e ∧
      ((⟨keys, .standard⟩ : Env).eval e .empty).Means (.ok (some (.bool true))) ∧
      numberEquals.test (.text "12") (Value.ofJson (.number (.int 12))) = .ok true := by
  intro keys tree
  have hop : Operator.parse? "NumberEquals" = some numberEquals := rfl
  have hkey : Key.parse? "ns:k" = some ⟨"ns", "k"⟩ := rfl
  have hv : keys.resolve ⟨"ns", "k"⟩ .empty = .ok (.text "12") := rfl
  have hliteral : Json.IsLiteral (.number (.int 12)) := .int 12
  obtain ⟨e, hparse, hmeans, hagree⟩ := means_literal hop hkey hliteral hv .root
  have htwelve : (Value.text "12").ReadsAs 12 := .text rfl
  have hequal : numberEquals.test (.text "12") (.text (Value.ofJson (.number (.int 12))).display) =
    .ok true := (decidesEquality htwelve htwelve).equals
  have hplain : ¬Distorts (.text "12") numberEquals (.number (.int 12)) := nofun
  rw [hequal] at hmeans
  exact ⟨e, hparse, hmeans, (hagree.mpr hplain true).mp hequal⟩

/-- The value zero compared with null, as numbers, fails where it should not hold; compared with
    zero, as truth values, it does not hold where it should. -/
theorem means_distorted_literals :
    let keys := Resolver.ofHandlers [(⟨"ns", "k"⟩, Handler.const (.number (.int 0)))]
    let single (operator : String) (literal : Json) : Json :=
      .object [(operator, .object [("ns:k", literal)])]
    (∃ e, predicate .root (single "NumberEquals" .null) = .pure e ∧
      ((⟨keys, .standard⟩ : Env).eval e .empty).Means
        (.error (.typeMismatch (.textNotNumber filterName "")))) ∧
    numberEquals.test (.number (.int 0)) (Value.ofJson .null) = .ok false ∧
    (∃ e, predicate .root (single "Bool" (.number (.int 0))) = .pure e ∧
      ((⟨keys, .standard⟩ : Env).eval e .empty).Means (.ok (some (.bool false)))) ∧
    bool.test (.number (.int 0)) (Value.ofJson (.number (.int 0))) = .ok true := by
  intro keys single
  have hkey : Key.parse? "ns:k" = some ⟨"ns", "k"⟩ := rfl
  have hv : keys.resolve ⟨"ns", "k"⟩ .empty = .ok (.number (.int 0)) := rfl
  have hparse : ∀ operator {literal : Json}, literal.IsLiteral →
      predicate .root (single operator literal) =
        .pure (compare ⟨"ns", "k"⟩ operator (Value.ofJson literal).display) := by
    intro operator literal hliteral
    rw [predicate_single, entry_of_isLiteral _ _ hkey hliteral]
  have hnumberEquals : Operator.parse? "NumberEquals" = some numberEquals := rfl
  have hbool : Operator.parse? "Bool" = some bool := rfl
  have hnull := means_single hnumberEquals hkey hv .null
  have hzero := means_single hbool hkey hv (.number (.int 0))
  have hcount : Filter.number? filterName (.number (.int 0)) = .ok (some (.int 0)) := rfl
  have hreading : numberEquals.reading = .number := rfl
  have hfails : numberEquals.test (.number (.int 0)) (.text (Value.ofJson .null).display) =
      .error (.typeMismatch (.textNotNumber filterName "")) :=
    (test_null_of_number hreading hcount).1
  have htruth : (Value.number (.int 0)).isTruthy = false := Value.isTruthy_int 0
  have hmisses : bool.test (.number (.int 0)) (.text (Value.ofJson (.number (.int 0))).display) =
      .ok false := by
    show Except.ok ((Value.number (.int 0)).isTruthy == true) = .ok false
    rw [htruth]
    rfl
  have hholds : bool.test (.number (.int 0)) (Value.ofJson (.number (.int 0))) = .ok true :=
    congrArg Except.ok (beq_self_eq_true _)
  rw [hfails] at hnull
  rw [hmisses] at hzero
  exact ⟨⟨_, hparse _ .null, hnull⟩, (test_null_of_number hreading hcount).2,
    ⟨_, hparse _ (.int 0), hzero⟩, hholds⟩

end Condition

end Stencil
