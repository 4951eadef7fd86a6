import Mathlib.Data.List.Forall2
import Stencil.Document.Condition
import Stencil.Proofs.Marker.Lexing

/-!
# What a text with markers denotes

The template of a text is read off tokens with columns, for the sake of the diagnostics. This file
fixes what the template is once nothing is wrong, in which neither columns nor paths occur:

* a marker is a list of stages, each a list of parts (`stagesIn`), and `Denotes` says which call
  such a list denotes;
* `Lexeme.Part.Reads` says which piece of a template a closed part of a text is;
* `read_eq_ok_iff`: the readable texts with an opening are those made of closed parts that are all
  read as pieces. So what a text denotes is the same at every path (`read_eq_ok_at`).
-/

namespace Stencil

/-! ## 1. Lists cut at separators -/

section Cut

variable {α β : Type}

theorem splitOnP_map (f : α → β) (p : β → Bool) (l : List α) :
    (l.map f).splitOnP p = (l.splitOnP (p ∘ f)).map (List.map f) := by
  induction l with
  | nil => rfl
  | cons x rest ih =>
    rw [List.map_cons, List.splitOnP_cons_eq_if_modifyHead, List.splitOnP_cons_eq_if_modifyHead, ih]
    by_cases hx : p (f x) = true
    · rw [if_pos hx, if_pos (show (p ∘ f) x = true from hx)]
      rfl
    · rw [if_neg hx, if_neg (show ¬(p ∘ f) x = true from hx)]
      cases rest.splitOnP (p ∘ f) <;> rfl

/-- Between two separators stands a stretch of the list in which there is none. -/
theorem infix_of_mem_splitOnP {p : α → Bool} {l piece : List α} (h : piece ∈ l.splitOnP p) :
    piece <:+: l ∧ ∀ x ∈ piece, p x = false := by
  -- the first piece is even a beginning of the list, so that it can grow at its front
  have hmain : ∀ l : List α, ∃ first others, l.splitOnP p = first :: others ∧ first <+: l ∧
      (∀ x ∈ first, p x = false) ∧ ∀ other ∈ others, other <:+: l ∧ ∀ x ∈ other, p x = false := by
    intro l
    induction l with
    | nil => exact ⟨[], [], rfl, List.nil_prefix, by simp, by simp⟩
    | cons x rest ih =>
      obtain ⟨first, others, hsplit, hfirst, hclear, hothers⟩ := ih
      have hlater : ∀ other ∈ others, other <:+: x :: rest ∧ ∀ y ∈ other, p y = false :=
        fun other hmem => ⟨List.infix_cons (hothers other hmem).1, (hothers other hmem).2⟩
      rw [List.splitOnP_cons_eq_if_modifyHead, hsplit]
      by_cases hx : p x = true
      · rw [if_pos hx]
        refine ⟨[], first :: others, rfl, List.nil_prefix, by simp, ?_⟩
        exact List.forall_mem_cons.mpr ⟨⟨List.infix_cons hfirst.isInfix, hclear⟩, hlater⟩
      · rw [if_neg hx]
        refine ⟨x :: first, others, rfl, List.cons_prefix_cons.mpr ⟨rfl, hfirst⟩, ?_, hlater⟩
        exact List.forall_mem_cons.mpr ⟨Bool.eq_false_iff.mpr hx, hclear⟩
  obtain ⟨first, others, hsplit, hfirst, hclear, hothers⟩ := hmain l
  rw [hsplit] at h
  rcases List.mem_cons.mp h with rfl | hmem
  · exact ⟨hfirst.isInfix, hclear⟩
  · exact hothers piece hmem

end Cut

namespace Template

open Lexeme

/-! ## 2. Calls without columns -/

/-- The words of a list of kinds of tokens, joined. -/
def wordsIn (kinds : List Token.Kind) : String :=
  String.join (kinds.map fun kind =>
    match kind with
    | .word s => s
    | _ => "")

/-- The parts of a stage, without blanks at their ends. -/
def partsIn (stage : List Token.Kind) : List String :=
  (stage.splitOnP fun kind => kind == .colon).map fun part => Text.trim (wordsIn part)

/-- The stages of a marker, each by its parts. -/
def stagesIn (body : List Token.Kind) : List (List String) :=
  (body.splitOnP fun kind => kind == .pipe).map partsIn

/-- A marker with these stages denotes the call: the first stage is the key in at least two parts,
    every other stage is a filter with a name. -/
structure Denotes (stages : List (List String)) (c : Call) : Prop where
  exists_key : ∃ space name, stages = (space :: name) :: c.filters.map (fun f => f.name :: f.args) ∧
    name ≠ [] ∧ Key.parse? (space ++ ":" ++ ":".intercalate name) = some c.key
  named : ∀ f ∈ c.filters, f.name ≠ ""

theorem colonParts_eq (stage : List Token) : colonParts stage = partsIn (stage.map Token.kind) := by
  have hcut : (stage.map Token.kind).splitOnP (fun kind => kind == .colon) =
      (stage.splitOnP fun token => token.kind == .colon).map (List.map Token.kind) :=
    splitOnP_map _ _ stage
  rw [colonParts, partsIn, hcut, List.map_map]
  refine List.map_congr_left fun part _ => ?_
  show Text.trim (wordsOf part) = Text.trim (wordsIn (part.map Token.kind))
  rw [wordsOf, wordsIn, List.map_map]
  rfl

theorem colonParts_stages (body : List Token) :
    (stages body).map colonParts = stagesIn (body.map Token.kind) := by
  have hcut : (body.map Token.kind).splitOnP (fun kind => kind == .pipe) =
      (body.splitOnP fun token => token.kind == .pipe).map (List.map Token.kind) :=
    splitOnP_map _ _ body
  rw [stagesIn, hcut, stages, List.map_map]
  exact List.map_congr_left fun stage _ => colonParts_eq stage

variable {path : DocPath} {opened : UInt32}

theorem key_eq_ok_iff {stage : List Token} {k : Key} : key path opened stage = .ok k ↔
    ∃ space name, colonParts stage = space :: name ∧ name ≠ [] ∧
      Key.parse? (space ++ ":" ++ ":".intercalate name) = some k := by
  unfold key
  cases hparts : colonParts stage with
  | nil => simp
  | cons space name =>
    cases name with
    | nil => simp
    | cons part rest =>
      cases hkey : Key.parse? (space ++ ":" ++ ":".intercalate (part :: rest)) with
      | none => simp [hkey]
      | some found => simp [hkey]

theorem filter_eq_ok_iff {stage : List Token} {f : FilterCall} :
    filter path opened stage = .ok f ↔ colonParts stage = f.name :: f.args ∧ f.name ≠ "" := by
  unfold filter
  cases hparts : colonParts stage with
  | nil => simp
  | cons name args =>
    obtain ⟨fname, fargs⟩ := f
    by_cases hname : name = ""
    · simp only [hname, if_true, reduceCtorEq, List.cons.injEq, false_iff]
      rintro ⟨⟨rfl, -⟩, hne⟩
      exact hne rfl
    · simp only [hname, if_false, Except.ok.injEq, FilterCall.mk.injEq, List.cons.injEq]
      constructor
      · rintro ⟨rfl, rfl⟩
        exact ⟨⟨rfl, rfl⟩, hname⟩
      · exact fun h => h.1

/-- The first stage denotes a filter, and the others denote the rest. -/
theorem filters_cons_eq_ok_iff {stage : List Token} {rest : List (List Token)}
    {fs : List FilterCall} : filters path opened (stage :: rest) = .ok fs ↔
      ∃ f others, fs = f :: others ∧ filter path opened stage = .ok f ∧
        filters path opened rest = .ok others := by
  rw [filters]
  cases filter path opened stage with
  | error d => simp
  | ok f =>
    cases filters path opened rest with
    | error d => simp
    | ok others => simp [eq_comm]

theorem filters_eq_ok_iff {rest : List (List Token)} {fs : List FilterCall} :
    filters path opened rest = .ok fs ↔
      rest.map colonParts = fs.map (fun f => f.name :: f.args) ∧ ∀ f ∈ fs, f.name ≠ "" := by
  induction rest generalizing fs with
  | nil => cases fs <;> simp [filters]
  | cons stage rest ih =>
    rw [filters_cons_eq_ok_iff, List.map_cons]
    constructor
    · rintro ⟨f, others, rfl, hf, hothers⟩
      obtain ⟨hparts, hname⟩ := filter_eq_ok_iff.mp hf
      obtain ⟨hrest, hnamed⟩ := ih.mp hothers
      exact ⟨by rw [List.map_cons, hparts, hrest], List.forall_mem_cons.mpr ⟨hname, hnamed⟩⟩
    · intro ⟨hparts, hnamed⟩
      cases fs with
      | nil => cases hparts
      | cons f others =>
        obtain ⟨hname, hnames⟩ := List.forall_mem_cons.mp hnamed
        obtain ⟨hf, hothers⟩ := List.cons.inj hparts
        exact ⟨f, others, rfl, filter_eq_ok_iff.mpr ⟨hf, hname⟩, ih.mpr ⟨hothers, hnames⟩⟩

/-- **What call a marker denotes** depends on the kinds of its tokens alone. -/
theorem call_eq_ok_iff {body : List Token} {c : Call} :
    call path opened body = .ok c ↔ Denotes (stagesIn (body.map Token.kind)) c := by
  rw [← colonParts_stages]
  unfold call
  cases hstages : stages body with
  | nil =>
    simp only [reduceCtorEq, List.map_nil, false_iff]
    rintro ⟨⟨space, name, h, -⟩, -⟩
    cases h
  | cons first rest =>
    rw [List.map_cons]
    obtain ⟨k, fs⟩ := c
    constructor
    · intro h
      cases hkey : key path opened first with
      | error d => simp [hkey] at h
      | ok found =>
        cases hfilters : filters path opened rest with
        | error d => simp [hkey, hfilters] at h
        | ok others =>
          simp only [hkey, hfilters, Except.ok.injEq, Call.mk.injEq] at h
          obtain ⟨rfl, rfl⟩ := h
          obtain ⟨space, name, hparts, hne, hparse⟩ := key_eq_ok_iff.mp hkey
          obtain ⟨hfs, hnamed⟩ := filters_eq_ok_iff.mp hfilters
          exact ⟨⟨space, name, by rw [hparts, hfs], hne, hparse⟩, hnamed⟩
    · intro ⟨⟨space, name, hparts, hne, hparse⟩, hnamed⟩
      obtain ⟨hfirst, hrest⟩ := List.cons.inj hparts
      have hkey : key path opened first = .ok k :=
        key_eq_ok_iff.mpr ⟨space, name, hfirst, hne, hparse⟩
      have hfilters : filters path opened rest = .ok fs := filters_eq_ok_iff.mpr ⟨hrest, hnamed⟩
      simp only [hkey, hfilters]

/-! ## 3. The tokens of closed parts -/

/-- The tokens of lexemes, the first one at an offset. -/
def tokensAt (offset : Nat) (ls : List Lexeme) : List Token :=
  (place offset ls).filterMap Token.ofPlaced?

/-- The kinds of the tokens of lexemes. -/
def kindsOf (ls : List Lexeme) : List Token.Kind :=
  ls.filterMap Token.Kind.ofLexeme?

theorem map_kind_tokensAt (offset : Nat) (ls : List Lexeme) :
    (tokensAt offset ls).map Token.kind = kindsOf ls := by
  induction ls generalizing offset with
  | nil => rfl
  | cons l rest ih =>
    have hrest := ih (offset + l.spelling.length)
    cases l with
    | nested => exact hrest
    | text run => exact congrArg (Token.Kind.text (String.ofList run) :: ·) hrest
    | opening => exact congrArg (Token.Kind.opening :: ·) hrest
    | word run => exact congrArg (Token.Kind.word (String.ofList run) :: ·) hrest
    | colon => exact congrArg (Token.Kind.colon :: ·) hrest
    | pipe => exact congrArg (Token.Kind.pipe :: ·) hrest
    | closing => exact congrArg (Token.Kind.closing :: ·) hrest

/-- What stands in a marker is collected up to its end. -/
theorem runs_body {body : List Lexeme} (hflat : ∀ l ∈ body, l ≠ .closing ∧ l ≠ .nested)
    (offset : Nat) (column : UInt32) (done : List Token) (rest : List Lexeme)
    (last : List Token) : ∃ behind,
      runs (some (column, done)) (tokensAt offset (body ++ .closing :: rest) ++ last) =
        .marker column (done.reverse ++ tokensAt offset body) ::
          runs none (tokensAt behind rest ++ last) := by
  induction body generalizing offset done with
  | nil => exact ⟨offset + 1, by simp [tokensAt, place, Token.ofPlaced?, Token.Kind.ofLexeme?,
      runs, spelling]⟩
  | cons l body ih =>
    obtain ⟨hl, hbody⟩ := List.forall_mem_cons.mp hflat
    have htoken : ∃ kind, kind ≠ .closing ∧ ∀ ls, tokensAt offset (l :: ls) =
        ⟨kind, columnAt offset⟩ :: tokensAt (offset + l.spelling.length) ls := by
      cases l with
      | closing => exact absurd rfl hl.1
      | nested => exact absurd rfl hl.2
      | text run => exact ⟨.text (String.ofList run), by simp, fun _ => rfl⟩
      | opening => exact ⟨.opening, by simp, fun _ => rfl⟩
      | word run => exact ⟨.word (String.ofList run), by simp, fun _ => rfl⟩
      | colon => exact ⟨.colon, by simp, fun _ => rfl⟩
      | pipe => exact ⟨.pipe, by simp, fun _ => rfl⟩
    obtain ⟨kind, hkind, htokens⟩ := htoken
    obtain ⟨behind, hruns⟩ :=
      ih hbody (offset + l.spelling.length) (⟨kind, columnAt offset⟩ :: done)
    refine ⟨behind, ?_⟩
    have hstep : ∀ more, runs (some (column, done)) (⟨kind, columnAt offset⟩ :: more) =
        runs (some (column, ⟨kind, columnAt offset⟩ :: done)) more := by
      intro more
      cases kind with
      | closing => exact absurd rfl hkind
      | _ => rfl
    rw [List.cons_append, htokens, htokens, List.cons_append, hstep, hruns, List.reverse_cons,
      List.append_assoc, List.singleton_append]

/-- A run of tokens that a part of a text is turned into. -/
inductive Matches : Part → Run → Prop where
  | text (run : List Char) : Matches (.text run) (.literal (String.ofList run))
  | marker {body : List Lexeme} {tokens : List Token} (column : UInt32)
      (h : tokens.map Token.kind = kindsOf body) : Matches (.marker body) (.marker column tokens)

/-- The tokens of closed parts fall into one run for each part. -/
theorem runs_parts {parts : List Part} (h : Closed parts) (offset : Nat) (column : UInt32) :
    List.Forall₂ Matches parts
      (runs none (tokensAt offset (parts.flatMap Part.lexemes) ++ [⟨.endOfText, column⟩])) := by
  induction h generalizing offset with
  | nil => exact .nil
  | @text run rest _ _ _ ih => exact .cons (.text run) (ih (offset + run.length))
  | @marker body rest hbody _ ih =>
    obtain ⟨behind, hruns⟩ := runs_body hbody.flat (offset + 2) (columnAt offset) []
      (rest.flatMap Part.lexemes) [⟨.endOfText, column⟩]
    have htokens : tokensAt offset ((Part.marker body :: rest).flatMap Part.lexemes) =
        ⟨.opening, columnAt offset⟩ ::
          tokensAt (offset + 2) (body ++ .closing :: rest.flatMap Part.lexemes) := by
      rw [List.flatMap_cons, Part.lexemes, List.cons_append, List.append_assoc]
      rfl
    rw [htokens, List.cons_append]
    show List.Forall₂ Matches _ (runs (some (columnAt offset, [])) _)
    rw [hruns]
    exact .cons (.marker _ (map_kind_tokensAt _ _)) (ih behind)

/-! ## 4. Templates without columns -/

theorem pieces_eq_iff {rs : List Run} {ps : List Piece} :
    pieces path rs = ([], ps) ↔ List.Forall₂ (fun run p => piece path run = .ok p) rs ps := by
  induction rs generalizing ps with
  | nil => simp [pieces, eq_comm]
  | cons run rest ih =>
    rw [pieces, List.forall₂_cons_left_iff]
    rcases hrest : pieces path rest with ⟨wrong, right⟩
    cases hrun : piece path run with
    | error d => simp
    | ok p =>
      simp only [Prod.mk.injEq]
      constructor
      · rintro ⟨rfl, rfl⟩
        exact ⟨p, right, rfl, ih.mp hrest, rfl⟩
      · rintro ⟨q, others, hq, hothers, rfl⟩
        have hsame := ih.mpr hothers
        rw [hrest, Prod.mk.injEq] at hsame
        rw [Except.ok.injEq] at hq
        rw [hq, hsame.2]
        exact ⟨hsame.1, rfl⟩

end Template

/-- The piece of a template that a part of a text is read as. -/
inductive Lexeme.Part.Reads : Lexeme.Part → Piece → Prop where
  | text (run : List Char) : Reads (.text run) (.text (String.ofList run))
  | marker {body : List Lexeme} {c : Call}
      (h : Template.Denotes (Template.stagesIn (Template.kindsOf body)) c) :
      Reads (.marker body) (.call c)

namespace Template

open Lexeme

theorem piece_eq_ok_iff {path : DocPath} {part : Part} {run : Run} (h : Matches part run)
    {p : Piece} : piece path run = .ok p ↔ part.Reads p := by
  cases h with
  | text run =>
    rw [piece, Except.ok.injEq]
    constructor
    · rintro rfl
      exact .text run
    · intro hreads
      cases hreads
      rfl
  | @marker body tokens column hkinds =>
    rw [piece]
    constructor
    · intro hok
      cases hcall : call path column tokens with
      | error d => rw [hcall] at hok; cases hok
      | ok c =>
        rw [hcall] at hok
        cases hok
        rw [call_eq_ok_iff, hkinds] at hcall
        exact .marker hcall
    · intro hreads
      cases hreads with
      | marker hdenotes =>
        rw [← hkinds] at hdenotes
        rw [call_eq_ok_iff.mpr hdenotes]
        rfl

theorem pieces_parts_iff {path : DocPath} {parts : List Part} {rs : List Run}
    (h : List.Forall₂ Matches parts rs) {ps : List Piece} :
    pieces path rs = ([], ps) ↔ List.Forall₂ Part.Reads parts ps := by
  rw [pieces_eq_iff]
  induction h generalizing ps with
  | nil => simp
  | cons hmatch _ ih =>
    rw [List.forall₂_cons_left_iff, List.forall₂_cons_left_iff]
    simp only [piece_eq_ok_iff hmatch, ih]

theorem read_eq_ok_iff_lexed {text : String} {path : DocPath} {e : Expr}
    (hopening : hasOpening text.toList = true) : read text path = .ok e ↔
      (Lexed.ofText text path).report.hasErrors = false ∧
        ∃ ps, pieces path (runs none (Lexed.ofText text path).tokens) = ([], ps) ∧
          e = .interpolated ps := by
  unfold read
  rw [if_pos hopening]
  cases hreport : (Lexed.ofText text path).report.hasErrors with
  | true => simp [hreport]
  | false =>
    simp only [hreport, Bool.false_eq_true, if_false, true_and]
    rcases pieces path (runs none (Lexed.ofText text path).tokens) with ⟨wrong, right⟩
    cases wrong with
    | nil => simp [eq_comm]
    | cons d rest => simp

/-- A text is cut without complaint exactly if it is made of closed parts. -/
theorem hasErrors_ofText_iff (text : String) (path : DocPath) :
    (Lexed.ofText text path).report.hasErrors = false ↔
      ∃ parts, Closed parts ∧ scan false text.toList = parts.flatMap Part.lexemes := by
  rw [← exists_parts_iff path]
  simp [Lexed.ofText, Report.hasErrors, Report.totalErrors_addErrors, Report.empty,
    Report.withLimit]

/-- The texts that are cut into the lexemes of closed parts. -/
theorem scan_eq_parts_iff {parts : List Part} (h : Closed parts) {cs : List Char} :
    scan false cs = parts.flatMap Part.lexemes ↔
      cs = (parts.flatMap Part.lexemes).flatMap spelling := by
  constructor
  · intro hscan
    rw [← hscan, scan_spelling]
  · intro hcs
    rw [hcs, scan_of_shape h.shape]

/-- **What a text made of closed parts denotes**, if it has an opening: what its parts are read
    as. -/
theorem read_parts_eq_ok_iff {text : String} {path : DocPath} {e : Expr} {parts : List Part}
    (hopening : hasOpening text.toList = true) (hparts : Closed parts)
    (htext : text.toList = (parts.flatMap Part.lexemes).flatMap spelling) :
    read text path = .ok e ↔
      ∃ ps, List.Forall₂ Part.Reads parts ps ∧ e = .interpolated ps := by
  have hscan := (scan_eq_parts_iff hparts).mpr htext
  have hruns : List.Forall₂ Matches parts (runs none (Lexed.ofText text path).tokens) := by
    show List.Forall₂ Matches parts (runs none (tokensAt 0 (scan false text.toList) ++ _))
    rw [hscan]
    exact runs_parts hparts 0 _
  have hclosed := (hasErrors_ofText_iff text path).mpr ⟨parts, hparts, hscan⟩
  rw [read_eq_ok_iff_lexed hopening]
  simp only [hclosed, true_and, pieces_parts_iff hruns]

/-- **The texts with an opening that can be read**, and what they denote. -/
theorem read_eq_ok_iff {text : String} {path : DocPath} {e : Expr}
    (hopening : hasOpening text.toList = true) : read text path = .ok e ↔
      ∃ parts ps, Closed parts ∧ text.toList = (parts.flatMap Part.lexemes).flatMap spelling ∧
        List.Forall₂ Part.Reads parts ps ∧ e = .interpolated ps := by
  constructor
  · intro hread
    obtain ⟨hclosed, -⟩ := (read_eq_ok_iff_lexed hopening).mp hread
    obtain ⟨parts, hparts, hscan⟩ := (hasErrors_ofText_iff text path).mp hclosed
    have htext := (scan_eq_parts_iff hparts).mp hscan
    obtain ⟨ps, hps, he⟩ := (read_parts_eq_ok_iff hopening hparts htext).mp hread
    exact ⟨parts, ps, hparts, htext, hps, he⟩
  · intro ⟨parts, ps, hparts, htext, hps, he⟩
    exact (read_parts_eq_ok_iff hopening hparts htext).mpr ⟨ps, hps, he⟩

theorem read_of_not_hasOpening {text : String} (path : DocPath)
    (h : hasOpening text.toList = false) : read text path = .ok (.text text) := by
  rw [read, if_neg (Bool.eq_false_iff.mp h)]

/-- **What a text denotes is the same everywhere in a document.** -/
theorem read_eq_ok_at {text : String} {path : DocPath} {e : Expr} (h : read text path = .ok e)
    (other : DocPath) : read text other = .ok e := by
  cases hopening : hasOpening text.toList with
  | true => rwa [read_eq_ok_iff hopening] at h ⊢
  | false => rwa [read_of_not_hasOpening _ hopening] at h ⊢

end Template

/-! ## 5. Parsed texts -/

theorem Parse.text_eq_pure {s : String} {path : DocPath} {e : Expr}
    (h : Template.read s path = .ok e) : Parse.text s path = Parse.pure e := by
  rw [Parse.text, h]

/-- A text is parsed only if it can be read. -/
theorem Parse.read_of_text {s : String} {path : DocPath} {e : Expr} {options : ParseOptions}
    {depth : Nat} {found after : Findings}
    (h : Parse.text s path options depth found = (some e, after)) :
    Template.read s path = .ok e := by
  rw [Parse.text] at h
  cases hread : Template.read s path with
  | ok other =>
    rw [hread] at h
    cases h
    rfl
  | error r =>
    rw [hread] at h
    cases h

end Stencil
