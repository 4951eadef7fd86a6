import Stencil.Proofs.Document.Interpretation
import Stencil.Proofs.Marker.RoundTrip

/-!
# Texts side by side

Two texts that can be read, one behind the other, are a text that can be read, unless an opening
arises where they meet. This file fixes

* the parts of the longer text (`Part.join`): the last run of the one text and the first run of the
  other become one run, and nothing else changes (`Closed.join`);
* the pieces that a text is made of (`Template.MadeOf`), also where it denotes no template, and that
  its value is shown as what they are shown as (`MadeOf.display_interpretText`);
* `Env.evaluate_append`: what the longer text is shown as.
-/

namespace Stencil

/-! ## 1. The place where two texts meet -/

namespace Template

/-- No opening arises where two texts meet. -/
theorem hasOpening_append {cs ds : List Char} (hcs : hasOpening cs = false)
    (hds : hasOpening ds = false) (hseam : cs.getLast? = some '$' → ds.head? ≠ some '\x7b') :
    hasOpening (cs ++ ds) = false := by
  induction cs with
  | nil => exact hds
  | cons c rest ih =>
    obtain ⟨hfirst, hrest⟩ := hasOpening_cons.mp hcs
    refine hasOpening_cons.mpr ⟨?_, ?_⟩
    · intro hopens
      cases rest with
      | nil => exact hseam (congrArg some hopens.1) hopens.2
      | cons d rest => exact hfirst (opens_cons.mpr (opens_cons.mp hopens))
    · refine ih hrest fun hlast => hseam ?_
      rw [List.getLast?_cons, hlast, Option.getD_some]

end Template

/-! ## 2. Joining parts -/

namespace Lexeme

open Template

/-- The characters of the parts of a text. -/
def Part.spelled (parts : List Part) : List Char :=
  (parts.flatMap lexemes).flatMap spelling

theorem Part.spelled_text (run : List Char) (rest : List Part) :
    spelled (.text run :: rest) = run ++ spelled rest := by
  simp [spelled, lexemes, spelling]

theorem Part.spelled_append (p : Part) (rest : List Part) :
    spelled (p :: rest) = spelled [p] ++ spelled rest := by
  simp [spelled]

/-- A marker starts with a dollar sign. -/
theorem Part.head?_spelled_marker (body : List Lexeme) (rest : List Part) (behind : List Char) :
    (spelled (.marker body :: rest) ++ behind).head? = some '$' := by
  simp [spelled, lexemes, spelling]

/-- A part in front of others. A run grows, if another run follows it. -/
def Part.cons : Part → List Part → List Part
  | .text run, .text more :: others => .text (run ++ more) :: others
  | p, others => p :: others

/-- The parts of a text in front of those of another. -/
def Part.join (parts others : List Part) : List Part :=
  parts.foldr cons others

theorem Part.spelled_cons (p : Part) (others : List Part) :
    spelled (cons p others) = spelled (p :: others) := by
  fun_cases cons p others with
  | case1 run more others => simp only [spelled_text, List.append_assoc]
  | case2 p others => rfl

theorem Part.spelled_join (parts others : List Part) :
    spelled (join parts others) = spelled parts ++ spelled others := by
  induction parts with
  | nil => rfl
  | cons p rest ih =>
    rw [join, List.foldr_cons, spelled_cons, spelled_append, ← join, ih, ← List.append_assoc,
      ← spelled_append]

/-- A run in front of the parts of a text, with no opening where they meet. -/
theorem Closed.cons_text {run : List Char} {others : List Part} (hrun : IsRun run)
    (h : Closed others)
    (hseam : run.getLast? = some '$' → (Part.spelled others).head? ≠ some '\x7b') :
    Closed (Part.cons (.text run) others) := by
  cases h with
  | nil => exact .text hrun (by simp) .nil
  | marker hbody hrest => exact .text hrun (by simp [Part.isText]) (.marker hbody hrest)
  | @text more rest hmore hnext hrest =>
    have hlonger : IsRun (run ++ more) := by
      refine ⟨List.append_ne_nil_of_left_ne_nil hrun.nonempty more, ?_⟩
      refine hasOpening_append hrun.closed hmore.closed fun hlast => ?_
      have hhead := hseam hlast
      rwa [Part.spelled_text, List.head?_append_of_ne_nil _ hmore.nonempty] at hhead
    exact .text hlonger hnext hrest

/-- **Parts join to parts**, if no opening arises where the two texts meet. -/
theorem Closed.join {parts others : List Part} (h : Closed parts) (hothers : Closed others)
    (hseam : (Part.spelled parts).getLast? = some '$' →
      (Part.spelled others).head? ≠ some '\x7b') : Closed (Part.join parts others) := by
  induction h with
  | nil => exact hothers
  | @marker body rest hbody _ ih =>
    refine .marker hbody (ih fun hlast => hseam ?_)
    rw [Part.spelled_append, List.getLast?_append, hlast, Option.some_or]
  | @text run rest hrun hnext hrest ih =>
    -- only the last run can meet the other text: a marker stands behind each of the others
    have hjoined : Closed (Part.join rest others) := by
      refine ih fun hlast => hseam ?_
      rw [Part.spelled_append, List.getLast?_append, hlast, Option.some_or]
    refine hjoined.cons_text hrun fun hlast => ?_
    rw [← Part.join, Part.spelled_join]
    cases hrest with
    | nil =>
      refine hseam ?_
      rwa [Part.spelled_text, Part.spelled, List.flatMap_nil, List.flatMap_nil, List.append_nil]
    | text => exact absurd (hnext _ rfl) (by simp [Part.isText])
    | marker =>
      rw [Part.head?_spelled_marker]
      decide

/-- A marker is no part of a text without an opening. -/
theorem Closed.eq_of_not_hasOpening {parts : List Part} (h : Closed parts)
    (hclosed : hasOpening (Part.spelled parts) = false) :
    parts = [] ∨ ∃ run, parts = [.text run] := by
  have hmarker : ∀ body rest, hasOpening (Part.spelled (.marker body :: rest)) = true := by
    intro body rest
    simp [Part.spelled, Part.lexemes, spelling, hasOpening]
  cases h with
  | nil => exact .inl rfl
  | marker => exact absurd (hmarker _ _) (Bool.eq_false_iff.mp hclosed)
  | @text run rest hrun hnext hrest =>
    cases hrest with
    | nil => exact .inr ⟨run, rfl⟩
    | text => exact absurd (hnext _ rfl) (by simp [Part.isText])
    | marker =>
      rw [Part.spelled_text] at hclosed
      have hbehind := hasOpening_of_infix (List.suffix_append _ _).isInfix hclosed
      exact absurd (hmarker _ _) (Bool.eq_false_iff.mp hbehind)

end Lexeme

/-! ## 3. Joining pieces -/

/-- A piece in front of others. A text grows, if another text follows it. -/
def Piece.cons : Piece → List Piece → List Piece
  | .text s, .text t :: others => .text (s ++ t) :: others
  | p, others => p :: others

/-- The pieces of a template in front of those of another. -/
def Piece.join (pieces others : List Piece) : List Piece :=
  pieces.foldr cons others

open Lexeme in
theorem Lexeme.Part.Reads.cons {part : Part} {parts : List Part} {p : Piece} {pieces : List Piece}
    (h : part.Reads p) (hrest : List.Forall₂ Part.Reads parts pieces) :
    List.Forall₂ Part.Reads (Part.cons part parts) (Piece.cons p pieces) := by
  cases h with
  | marker hbody => exact .cons (.marker hbody) hrest
  | text run =>
    cases hrest with
    | nil => exact .cons (.text run) .nil
    | cons hfirst hothers =>
      cases hfirst with
      | marker hbody => exact .cons (.text run) (.cons (.marker hbody) hothers)
      | text more =>
        rw [Part.cons, Piece.cons, ← String.ofList_append]
        exact .cons (.text (run ++ more)) hothers

open Lexeme in
theorem Lexeme.Part.Reads.join {parts others : List Part} {pieces further : List Piece}
    (h : List.Forall₂ Part.Reads parts pieces) (hothers : List.Forall₂ Part.Reads others further) :
    List.Forall₂ Part.Reads (Part.join parts others) (Piece.join pieces further) := by
  induction h with
  | nil => exact hothers
  | cons hfirst _ ih => exact hfirst.cons ih

namespace Env

variable (env : Env) (context : Context)

theorem evalPieces_text (s : String) (rest : List Piece) :
    env.evalPieces context (.text s :: rest) =
      (env.evalPieces context rest).map fun shown => s ++ shown := rfl

theorem evalPieces_cons (p : Piece) (others : List Piece) :
    env.evalPieces context (Piece.cons p others) = env.evalPieces context (p :: others) := by
  fun_cases Piece.cons p others with
  | case1 s t others =>
    simp only [evalPieces_text]
    cases env.evalPieces context others with
    | error error => rfl
    | ok shown => exact congrArg Except.ok String.append_assoc
  | case2 p others => rfl

/-- **Joined pieces are shown one after the other.** -/
theorem evalPieces_join (pieces others : List Piece) :
    env.evalPieces context (Piece.join pieces others) =
      (env.evalPieces context pieces).bind fun shown =>
        (env.evalPieces context others).map fun more => shown ++ more := by
  have hthen : ∀ (first : String) (behind : Outcome String),
      (behind.bind fun shown => (env.evalPieces context others).map fun more => shown ++ more).map
          (fun shown => first ++ shown) =
        (behind.map fun shown => first ++ shown).bind fun shown =>
          (env.evalPieces context others).map fun more => shown ++ more := by
    intro first behind
    cases behind with
    | error error => rfl
    | ok shown =>
      cases env.evalPieces context others with
      | error error => rfl
      | ok more => exact congrArg Except.ok String.append_assoc.symm
  induction pieces with
  | nil =>
    show env.evalPieces context others =
      (env.evalPieces context others).map fun more => "" ++ more
    cases env.evalPieces context others with
    | error error => rfl
    | ok more => exact congrArg Except.ok String.empty_append.symm
  | cons p rest ih =>
    rw [Piece.join, List.foldr_cons, evalPieces_cons, ← Piece.join]
    cases p with
    | text s => rw [evalPieces_text, evalPieces_text, ih, hthen]
    | call c =>
      simp only [evalPieces]
      cases env.evalCall context c with
      | error error => rfl
      | ok v => exact (congrArg _ ih).trans (hthen v.display _)

end Env

/-! ## 4. What a text is made of -/

namespace Template

open Lexeme

/-- A text consists of markers and of runs between them, and these are read as the pieces. -/
def MadeOf (s : String) (pieces : List Piece) : Prop :=
  ∃ parts, Closed parts ∧ s.toList = Part.spelled parts ∧ List.Forall₂ Part.Reads parts pieces

/-- A text without an opening is a run, or nothing. -/
theorem madeOf_of_not_hasOpening {s : String} (h : hasOpening s.toList = false) :
    MadeOf s (if s = "" then [] else [.text s]) := by
  by_cases hs : s = ""
  · subst hs
    exact ⟨[], .nil, rfl, .nil⟩
  · have hrun : IsRun s.toList := ⟨fun hnil => hs (String.toList_eq_nil_iff.mp hnil), h⟩
    rw [if_neg hs]
    refine ⟨[.text s.toList], .text hrun (by simp) .nil, ?_, ?_⟩
    · rw [Part.spelled_text, Part.spelled, List.flatMap_nil, List.flatMap_nil, List.append_nil]
    · have hreads := Part.Reads.text s.toList
      rw [String.ofList_toList] at hreads
      exact .cons hreads .nil

/-- **A text that can be read is made of pieces.** -/
theorem exists_madeOf {s : String} {path : DocPath} {e : Expr} (h : read s path = .ok e) :
    ∃ pieces, MadeOf s pieces := by
  cases hopening : hasOpening s.toList with
  | false => exact ⟨_, madeOf_of_not_hasOpening hopening⟩
  | true =>
    obtain ⟨parts, pieces, hparts, htext, hreads, -⟩ := (read_eq_ok_iff hopening).mp h
    exact ⟨pieces, parts, hparts, htext, hreads⟩

/-- **A text made of pieces can be read.** -/
theorem MadeOf.exists_read {s : String} {pieces : List Piece} (h : MadeOf s pieces)
    (path : DocPath) : ∃ e, read s path = .ok e := by
  cases hopening : hasOpening s.toList with
  | false => exact ⟨.text s, read_of_not_hasOpening path hopening⟩
  | true =>
    obtain ⟨parts, hparts, htext, hreads⟩ := h
    exact ⟨.interpolated pieces,
      (read_eq_ok_iff hopening).mpr ⟨parts, pieces, hparts, htext, hreads, rfl⟩⟩

/-- Texts that meet without an opening are made of the pieces of both. -/
theorem MadeOf.append {s t : String} {pieces others : List Piece} (hs : MadeOf s pieces)
    (ht : MadeOf t others)
    (hseam : s.toList.getLast? ≠ some '$' ∨ t.toList.head? ≠ some '\x7b') :
    MadeOf (s ++ t) (Piece.join pieces others) := by
  obtain ⟨parts, hparts, hspelled, hreads⟩ := hs
  obtain ⟨more, hmore, hmorespelled, hmorereads⟩ := ht
  rw [hspelled, hmorespelled] at hseam
  refine ⟨Part.join parts more, hparts.join hmore fun hlast => ?_, ?_, ?_⟩
  · exact hseam.resolve_left fun hne => hne hlast
  · rw [String.toList_append, hspelled, hmorespelled, Part.spelled_join]
  · exact Part.Reads.join hreads hmorereads

/-- The value of a template is shown as its pieces are, also if it is the value of a call. -/
theorem display_evalTemplate (env : Env) (context : Context) (pieces : List Piece) :
    (env.evalTemplate context pieces).map Value.display = env.evalPieces context pieces := by
  have hshown : ∀ o : Outcome String, (o.map Value.text).map Value.display = o := by
    intro o
    cases o with
    | error error => rfl
    | ok shown => rfl
  match pieces with
  | [.call c] =>
    simp only [Env.evalTemplate, Env.evalPieces]
    cases env.evalCall context c with
    | error error => rfl
    | ok v => exact congrArg Except.ok String.append_empty.symm
  | [] => exact hshown (env.evalPieces context [])
  | .text s :: rest => exact hshown (env.evalPieces context (.text s :: rest))
  | .call c :: second :: rest =>
    exact hshown (env.evalPieces context (.call c :: second :: rest))

/-- **The value of a text is shown as its pieces are.** -/
theorem MadeOf.display_interpretText {s : String} {pieces : List Piece} (h : MadeOf s pieces)
    (env : Env) (context : Context) :
    (env.interpretText context s).map Value.display = env.evalPieces context pieces := by
  obtain ⟨parts, hparts, htext, hreads⟩ := h
  rw [Env.interpretText_eq]
  cases hopening : hasOpening s.toList with
  | true =>
    have hread : read s .root = .ok (.interpolated pieces) :=
      (read_eq_ok_iff hopening).mpr ⟨parts, pieces, hparts, htext, hreads, rfl⟩
    rw [hread]
    exact display_evalTemplate env context pieces
  | false =>
    rw [read_of_not_hasOpening .root hopening]
    show Except.ok s = env.evalPieces context pieces
    rw [htext] at hopening
    rcases hparts.eq_of_not_hasOpening hopening with rfl | ⟨run, rfl⟩
    · cases hreads
      exact congrArg Except.ok (String.toList_eq_nil_iff.mp htext)
    · obtain ⟨p, others, hp, hothers, rfl⟩ := List.forall₂_cons_left_iff.mp hreads
      cases hp
      cases hothers
      have hs : s = String.ofList run := by
        rw [← String.ofList_toList (s := s), htext, Part.spelled_text]
        simp [Part.spelled]
      exact congrArg Except.ok (hs.trans String.append_empty.symm)

end Template

/-! ## 5. Rendering -/

/-- The outcome that shows two values one after the other. The first error is its error. -/
def Outcome.ShowsBoth (first second both : Outcome Value) : Prop :=
  match first, second with
  | .ok v, .ok w => ∃ u, both = .ok u ∧ u.display = v.display ++ w.display
  | .error error, _ => both = .error error
  | .ok _, .error error => both = .error error

theorem Outcome.eq_error_of_map {α β : Type} {f : α → β} {o : Outcome α} {error : EvalError}
    (h : o.map f = .error error) : o = .error error := by
  cases o with
  | error other => exact congrArg _ (Except.error.inj h)
  | ok a => cases h

theorem Outcome.showsBoth_of_display {first second both : Outcome Value}
    (h : both.map Value.display = (first.map Value.display).bind fun shown =>
      (second.map Value.display).map fun more => shown ++ more) : first.ShowsBoth second both := by
  cases first with
  | error error => exact eq_error_of_map h
  | ok v =>
    cases second with
    | error error => exact eq_error_of_map h
    | ok w =>
      cases both with
      | error error => cases h
      | ok u => exact ⟨u, rfl, Except.ok.inj h⟩

/-- A document that is a text takes one step, and has the value of the text. -/
theorem Env.evaluate_text {s : String} {path : DocPath} {e : Expr}
    (h : Template.read s path = .ok e) (env : Env) (limit : Option Nat) (context : Context) :
    (env.evaluate limit e context).1 =
      (Metered.tick limit 0).1.bind fun _ => env.interpretText context s := by
  rw [evaluate_eq, evalDocument, eval_of_read h]
  simp only [Metered.bind, Metered.map, Metered.ofOutcome, Metered.pure]
  cases Metered.tick limit 0 with
  | mk started gas =>
    cases started with
    | error error => rfl
    | ok =>
      cases hvalue : env.interpretText context s with
      | error error => rfl
      | ok v => rfl

/-- **Texts are rendered one after the other.** Let two texts be accepted, and let no opening arise
    where they meet. Then they are accepted as one text. Its value is shown as the values of both,
    if they have one; and it fails as the first one does, or as the second one if the first has a
    value. -/
theorem Env.evaluate_append {s t : String} {here there : DocPath} {d e : Expr}
    (hs : (Parse.text s here).Yields d) (ht : (Parse.text t there).Yields e)
    (hseam : s.toList.getLast? ≠ some '$' ∨ t.toList.head? ≠ some '\x7b') (path : DocPath) :
    ∃ joined, Parse.text (s ++ t) path = Parse.pure joined ∧
      ∀ (env : Env) (limit : Option Nat) (context : Context),
        Outcome.ShowsBoth (env.evaluate limit d context).1 (env.evaluate limit e context).1
          (env.evaluate limit joined context).1 := by
  have hreads := hs.of_text
  have hreadt := ht.of_text
  obtain ⟨pieces, hpieces⟩ := Template.exists_madeOf hreads
  obtain ⟨others, hothers⟩ := Template.exists_madeOf hreadt
  have hjoined := hpieces.append hothers hseam
  obtain ⟨joined, hread⟩ := hjoined.exists_read path
  refine ⟨joined, Parse.text_eq_pure hread, fun env limit context => ?_⟩
  have hshown : (env.interpretText context (s ++ t)).map Value.display =
      ((env.interpretText context s).map Value.display).bind fun shown =>
        ((env.interpretText context t).map Value.display).map fun more => shown ++ more := by
    rw [hjoined.display_interpretText, evalPieces_join, hpieces.display_interpretText,
      hothers.display_interpretText]
  rw [evaluate_text hreads, evaluate_text hreadt, evaluate_text hread]
  cases (Metered.tick limit 0).1 with
  | error error => rfl
  | ok => exact Outcome.showsBoth_of_display hshown

/-- A dollar sign before a marker opens no marker. -/
theorem Env.evaluate_append_dollar_before_marker :
    ∃ joined, Parse.text ("Total: $" ++ "$\x7bcart:sum\x7d!") .root = Parse.pure joined ∧
      ∀ (env : Env) (limit : Option Nat) (context : Context),
        Outcome.ShowsBoth (env.evaluate limit (.text "Total: $") context).1
          (env.evaluate limit (.interpolated [.call ⟨⟨"cart", "sum"⟩, []⟩, .text "!"]) context).1
          (env.evaluate limit joined context).1 := by
  have hplain : (Parse.text "Total: $" .root).Yields (.text "Total: $") :=
    ⟨.default, 0, ⟨Report.withLimit 1, false⟩, ⟨Report.withLimit 1, false⟩, by rfl⟩
  have hmarker : (Parse.text "$\x7bcart:sum\x7d!" .root).Yields
      (.interpolated [.call ⟨⟨"cart", "sum"⟩, []⟩, .text "!"]) :=
    ⟨.default, 0, ⟨Report.withLimit 1, false⟩, ⟨Report.withLimit 1, false⟩, by rfl⟩
  exact Env.evaluate_append hplain hmarker (by decide) .root

end Stencil
