import Stencil.Proofs.Key
import Stencil.Proofs.Marker.Reading

/-!
# Templates as texts

A template is written with its literal texts as they are and its calls between the braces of a
marker. This file fixes

* how a template is written (`Template.print`);
* the templates that a text can denote (`Template.Printable`): with a call, without empty or
  adjacent texts, and with names and arguments that no punctuation or blank can blur;
* the lexemes of a marker, given its stages (`Lexeme.ofStages`).

Exactly these templates are read from texts with an opening, and each of them is what its own text
denotes.
-/

namespace Stencil

open Template Lexeme

/-! ## 1. Printing -/

/-- A filter as text. -/
def FilterCall.written (f : FilterCall) : String :=
  ":".intercalate (f.name :: f.args)

/-- A call as text. -/
def Call.written (c : Call) : String :=
  "$\x7b" ++ "|".intercalate (c.key.text :: c.filters.map FilterCall.written) ++ "\x7d"

/-- A piece of a template as text. -/
def Piece.written : Piece → String
  | .text s => s
  | .call c => c.written

/-- A template as text. -/
def Template.print (pieces : List Piece) : String :=
  String.join (pieces.map Piece.written)

/-! ## 2. Printable templates -/

/-- A text that ends no stage and no marker and opens none. -/
structure Inert (s : String) : Prop where
  unpiped : '|' ∉ s.toList
  unclosed : '\x7d' ∉ s.toList
  unopened : hasOpening s.toList = false

/-- A text that is a part of a stage as it stands. -/
structure Atom (s : String) : Prop extends Inert s where
  uncut : ':' ∉ s.toList
  trimmed : Text.trim s = s

/-- The parts of a name between its colons. -/
def Key.nameParts (k : Key) : List String :=
  (k.name.toList.splitOn ':').map String.ofList

/-- A call that a marker can hold. -/
structure Call.Printable (c : Call) : Prop where
  space : Atom c.key.space
  space_ne : c.key.space ≠ ""
  name : Inert c.key.name
  name_ne : c.key.name ≠ ""
  trimmed : ∀ part ∈ c.key.nameParts, Text.trim part = part
  filter : ∀ f ∈ c.filters, Atom f.name
  filter_ne : ∀ f ∈ c.filters, f.name ≠ ""
  args : ∀ f ∈ c.filters, ∀ arg ∈ f.args, Atom arg

/-- Is a piece a literal text? -/
def Piece.isText : Piece → Bool
  | .text _ => true
  | .call _ => false

/-- Two pieces that are not both literal texts. -/
def Piece.Apart (p q : Piece) : Prop :=
  (p.isText && q.isText) = false

/-- A piece that can be told from what stands beside it: a text that is not empty and opens no
    marker, or a call that a marker can hold. -/
def Piece.Stands : Piece → Prop
  | .text s => s ≠ "" ∧ hasOpening s.toList = false
  | .call c => c.Printable

/-- Pieces that do not run into each other. -/
structure Template.Separate (pieces : List Piece) : Prop where
  stands : ∀ p ∈ pieces, p.Stands
  apart : pieces.IsChain Piece.Apart

/-- The templates that are written with markers. -/
structure Template.Printable (pieces : List Piece) : Prop extends Separate pieces where
  exists_call : ∃ p ∈ pieces, p.isText = false

section Decidable

variable {s : String} {c : Call} {p : Piece} {pieces : List Piece}

instance : Decidable (Inert s) :=
  decidable_of_iff ('|' ∉ s.toList ∧ '\x7d' ∉ s.toList ∧ hasOpening s.toList = false)
    ⟨fun h => ⟨h.1, h.2.1, h.2.2⟩, fun h => ⟨h.unpiped, h.unclosed, h.unopened⟩⟩

instance : Decidable (Atom s) :=
  decidable_of_iff (Inert s ∧ ':' ∉ s.toList ∧ Text.trim s = s)
    ⟨fun h => ⟨h.1, h.2.1, h.2.2⟩, fun h => ⟨h.toInert, h.uncut, h.trimmed⟩⟩

instance : Decidable c.Printable :=
  decidable_of_iff ((Atom c.key.space ∧ c.key.space ≠ "") ∧
      (Inert c.key.name ∧ c.key.name ≠ "" ∧ ∀ part ∈ c.key.nameParts, Text.trim part = part) ∧
      (∀ f ∈ c.filters, Atom f.name) ∧ (∀ f ∈ c.filters, f.name ≠ "") ∧
      ∀ f ∈ c.filters, ∀ arg ∈ f.args, Atom arg)
    ⟨fun ⟨⟨h1, h2⟩, ⟨h3, h4, h5⟩, h6, h7, h8⟩ => ⟨h1, h2, h3, h4, h5, h6, h7, h8⟩,
      fun ⟨h1, h2, h3, h4, h5, h6, h7, h8⟩ => ⟨⟨h1, h2⟩, ⟨h3, h4, h5⟩, h6, h7, h8⟩⟩

instance : Decidable p.Stands :=
  match p with
  | .text s => inferInstanceAs (Decidable (s ≠ "" ∧ hasOpening s.toList = false))
  | .call c => inferInstanceAs (Decidable c.Printable)

instance : DecidableRel Piece.Apart :=
  fun p q => inferInstanceAs (Decidable ((p.isText && q.isText) = false))

instance : Decidable (Separate pieces) :=
  decidable_of_iff ((∀ p ∈ pieces, p.Stands) ∧ pieces.IsChain Piece.Apart)
    ⟨fun h => ⟨h.1, h.2⟩, fun h => ⟨h.stands, h.apart⟩⟩

instance : Decidable (Template.Printable pieces) :=
  decidable_of_iff (Separate pieces ∧ ∃ p ∈ pieces, p.isText = false)
    ⟨fun h => ⟨h.1, h.2⟩, fun h => ⟨h.toSeparate, h.exists_call⟩⟩

end Decidable

/-! ## 3. Lists with separators -/

section Intercalate

variable {α β : Type}

theorem mem_intercalate {sep x : α} {ls : List (List α)} (h : x ∈ [sep].intercalate ls) :
    x = sep ∨ ∃ l ∈ ls, x ∈ l := by
  induction ls with
  | nil => cases h
  | cons first rest ih =>
    cases rest with
    | nil =>
      rw [List.intercalate_singleton] at h
      exact .inr ⟨first, List.mem_cons_self, h⟩
    | cons second more =>
      rw [List.intercalate_cons_cons, List.append_assoc, List.mem_append, List.singleton_append,
        List.mem_cons] at h
      rcases h with hfirst | rfl | hrest
      · exact .inr ⟨first, List.mem_cons_self, hfirst⟩
      · exact .inl rfl
      · rcases ih hrest with rfl | ⟨l, hl, hx⟩
        · exact .inl rfl
        · exact .inr ⟨l, List.mem_cons_of_mem first hl, hx⟩

theorem flatMap_intercalate (f : α → List β) (sep : α) (ls : List (List α)) :
    ([sep].intercalate ls).flatMap f = (f sep).intercalate (ls.map fun l => l.flatMap f) := by
  induction ls with
  | nil => rfl
  | cons first rest ih =>
    cases rest with
    | nil => simp
    | cons second more =>
      rw [List.intercalate_cons_cons, List.flatMap_append, List.flatMap_append, ih,
        List.flatMap_singleton]
      simp only [List.map_cons, List.intercalate_cons_cons]

theorem filterMap_intercalate {f : α → Option β} {sep : α} {b : β} (h : f sep = some b)
    (ls : List (List α)) :
    ([sep].intercalate ls).filterMap f = [b].intercalate (ls.map fun l => l.filterMap f) := by
  simp only [List.filterMap_eq_flatMap_toList]
  rw [flatMap_intercalate, h, Option.toList_some]

end Intercalate

/-! ## 4. Parts that stand as they are -/

theorem Inert.append_colon {s t : String} (hs : Inert s) (ht : Inert t) :
    Inert (s ++ ":" ++ t) := by
  have hchars := Text.toList_append_colon s t
  have hopening : ∀ cs : List Char, hasOpening cs = false →
      hasOpening (cs ++ ':' :: t.toList) = false := by
    intro cs hcs
    induction cs with
    | nil => exact hasOpening_cons.mpr ⟨by simp [Opens], ht.unopened⟩
    | cons c rest ih =>
      obtain ⟨hc, hrest⟩ := hasOpening_cons.mp hcs
      refine hasOpening_cons.mpr ⟨?_, ih hrest⟩
      cases rest with
      | nil => simp [Opens]
      | cons d more => exact fun h => hc (opens_cons.mpr (opens_cons.mp h))
  refine ⟨?_, ?_, ?_⟩
  · simp [hchars, hs.unpiped, ht.unpiped]
  · simp [hchars, hs.unclosed, ht.unclosed]
  · rw [hchars]
    exact hopening _ hs.unopened

theorem inert_intercalate {parts : List String} (h : ∀ part ∈ parts, Inert part) :
    Inert (":".intercalate parts) := by
  induction parts with
  | nil => exact ⟨by simp, by simp, rfl⟩
  | cons first rest ih =>
    obtain ⟨hfirst, hrest⟩ := List.forall_mem_cons.mp h
    cases rest with
    | nil => rwa [String.intercalate_singleton]
    | cons second more =>
      rw [String.intercalate_cons_cons]
      exact hfirst.append_colon (ih hrest)

/-- A stretch of an inert text is inert. -/
theorem Inert.of_infix {s : String} {cs : List Char} (h : Inert s) (hcs : cs <:+: s.toList) :
    Inert (String.ofList cs) := by
  refine ⟨?_, ?_, ?_⟩
  · rw [String.toList_ofList]
    exact fun hmem => h.unpiped (hcs.subset hmem)
  · rw [String.toList_ofList]
    exact fun hmem => h.unclosed (hcs.subset hmem)
  · rw [String.toList_ofList]
    exact hasOpening_of_infix hcs h.unopened

theorem toList_intercalate_colon (parts : List String) :
    (":".intercalate parts).toList = [':'].intercalate (parts.map String.toList) :=
  String.toList_intercalate

theorem trim_intercalate {parts : List String} (h : ∀ part ∈ parts, Text.trim part = part) :
    Text.trim (":".intercalate parts) = ":".intercalate parts := by
  rw [Text.trim_eq_self_iff, toList_intercalate_colon]
  refine Text.trimChars_intercalate (by decide) fun cs hcs => ?_
  obtain ⟨part, hpart, rfl⟩ := List.mem_map.mp hcs
  exact Text.trim_eq_self_iff.mp (h part hpart)

/-! ## 5. The parts of a text between its colons -/

namespace Text

/-- The parts of a text between its colons. -/
def cutAtColons (s : String) : List String :=
  (s.toList.splitOn ':').map String.ofList

theorem intercalate_cutAtColons (s : String) : ":".intercalate (cutAtColons s) = s := by
  rw [← String.toList_inj, toList_intercalate_colon, cutAtColons, List.map_map]
  have hsame : String.toList ∘ String.ofList = id := funext fun _ => String.toList_ofList
  rw [hsame, List.map_id, List.intercalate_splitOn]

theorem cutAtColons_intercalate {parts : List String} (hne : parts ≠ [])
    (h : ∀ part ∈ parts, ':' ∉ part.toList) : cutAtColons (":".intercalate parts) = parts := by
  have hcut : ∀ cs ∈ parts.map String.toList, ':' ∉ cs := by
    intro cs hcs
    obtain ⟨part, hpart, rfl⟩ := List.mem_map.mp hcs
    exact h part hpart
  rw [cutAtColons, toList_intercalate_colon, List.splitOn_intercalate _ hcut (by simpa using hne),
    List.map_map]
  have hsame : String.ofList ∘ String.toList = id := funext fun s => String.ofList_toList
  rw [hsame, List.map_id]

theorem cutAtColons_ne_nil (s : String) : cutAtColons s ≠ [] := by
  simp [cutAtColons]

theorem cutAtColons_of_uncut {s : String} (h : ':' ∉ s.toList) : cutAtColons s = [s] := by
  rw [cutAtColons, List.splitOn_eq_singleton h, List.map_singleton, String.ofList_toList]

theorem cutAtColons_append_colon {before : String} (h : ':' ∉ before.toList) (after : String) :
    cutAtColons (before ++ ":" ++ after) = before :: cutAtColons after := by
  rw [cutAtColons, toList_append_colon, List.splitOn_append_cons_self_of_not_mem h, List.map_cons,
    String.ofList_toList, cutAtColons]

/-- A part is a stretch of the text without colons. -/
theorem infix_of_mem_cutAtColons {s part : String} (h : part ∈ cutAtColons s) :
    part.toList <:+: s.toList ∧ ':' ∉ part.toList := by
  obtain ⟨cs, hcs, rfl⟩ := List.mem_map.mp h
  obtain ⟨hwithin, hclear⟩ := infix_of_mem_splitOnP hcs
  rw [String.toList_ofList]
  exact ⟨hwithin, fun hmem => absurd (hclear ':' hmem) (by decide)⟩

end Text

/-- The parts of an inert text are inert. -/
theorem Inert.of_mem_cutAtColons {s part : String} (h : Inert s)
    (hpart : part ∈ Text.cutAtColons s) : Inert part := by
  have hinert := h.of_infix (Text.infix_of_mem_cutAtColons hpart).1
  rwa [String.ofList_toList] at hinert

theorem Key.nameParts_eq (k : Key) : k.nameParts = Text.cutAtColons k.name := rfl

/-! ## 6. The stages of a call -/

/-- The stages of a call, each by its parts. -/
def Call.stages (c : Call) : List (List String) :=
  (c.key.space :: c.key.nameParts) :: c.filters.map fun f => f.name :: f.args

theorem Call.Printable.atom {c : Call} (h : c.Printable) :
    ∀ stage ∈ c.stages, ∀ s ∈ stage, Atom s := by
  refine List.forall_mem_cons.mpr ⟨List.forall_mem_cons.mpr ⟨h.space, fun part hpart => ?_⟩, ?_⟩
  · exact
      { toInert := h.name.of_mem_cutAtColons hpart
        uncut := (Text.infix_of_mem_cutAtColons hpart).2
        trimmed := h.trimmed part hpart }
  · intro stage hstage
    obtain ⟨f, hf, rfl⟩ := List.mem_map.mp hstage
    exact List.forall_mem_cons.mpr ⟨h.filter f hf, h.args f hf⟩

/-- **Stages of parts that stand as they are** denote the call that has these stages. -/
theorem denotes_iff {stages : List (List String)} {c : Call}
    (h : ∀ stage ∈ stages, ∀ s ∈ stage, Atom s) :
    Denotes stages c ↔ c.Printable ∧ stages = c.stages := by
  obtain ⟨k, fs⟩ := c
  constructor
  · rintro ⟨⟨space, name, rfl, hne, hkey⟩, hnamed⟩
    obtain ⟨hfirst, hrest⟩ := List.forall_mem_cons.mp h
    obtain ⟨hspace, hname⟩ := List.forall_mem_cons.mp hfirst
    have htrim := trim_intercalate fun part hpart => (hname part hpart).trimmed
    rw [Key.parse?_append hspace.uncut hspace.trimmed htrim] at hkey
    split at hkey
    · cases hkey
    · next hparts =>
      obtain rfl : _ = k := Option.some.inj hkey
      obtain ⟨hspace_ne, hname_ne⟩ := not_or.mp hparts
      have hsplit := Text.cutAtColons_intercalate hne fun part hpart => (hname part hpart).uncut
      have hfilter : ∀ f ∈ fs, ∀ s ∈ f.name :: f.args, Atom s :=
        fun f hf => hrest _ (List.mem_map_of_mem hf)
      refine ⟨{
        space := hspace
        space_ne := hspace_ne
        name := inert_intercalate fun part hpart => (hname part hpart).toInert
        name_ne := hname_ne
        trimmed := fun part hpart => (hname part (hsplit ▸ hpart)).trimmed
        filter := fun f hf => hfilter f hf _ List.mem_cons_self
        filter_ne := hnamed
        args := fun f hf arg harg => hfilter f hf arg (List.mem_cons_of_mem _ harg) }, ?_⟩
      rw [Call.stages, Key.nameParts_eq, hsplit]
  · rintro ⟨hc, rfl⟩
    refine ⟨⟨k.space, k.nameParts, rfl, Text.cutAtColons_ne_nil k.name, ?_⟩, hc.filter_ne⟩
    have htrim := trim_intercalate hc.trimmed
    rw [k.nameParts_eq, Text.intercalate_cutAtColons] at htrim ⊢
    rw [Key.parse?_append hc.space.uncut hc.space.trimmed htrim,
      if_neg (not_or.mpr ⟨hc.space_ne, hc.name_ne⟩)]

/-! ## 7. Markers made of stages -/

namespace Lexeme

/-- The lexemes of a part of a stage. -/
def ofPart (s : String) : List Lexeme :=
  if s = "" then [] else [.word s.toList]

/-- The lexemes of a stage. -/
def ofStage (parts : List String) : List Lexeme :=
  [.colon].intercalate (parts.map ofPart)

/-- The lexemes of stages, as they stand in a marker. -/
def ofStages (stages : List (List String)) : List Lexeme :=
  [.pipe].intercalate (stages.map ofStage)

theorem spelling_ofPart (s : String) : (ofPart s).flatMap spelling = s.toList := by
  rw [ofPart]
  by_cases hs : s = ""
  · rw [if_pos hs, hs]
    rfl
  · rw [if_neg hs]
    simp [spelling]

theorem spelling_ofStage (parts : List String) :
    (ofStage parts).flatMap spelling = (":".intercalate parts).toList := by
  rw [ofStage, flatMap_intercalate, toList_intercalate_colon, List.map_map]
  exact congrArg _ (List.map_congr_left fun s _ => spelling_ofPart s)

theorem spelling_ofStages (stages : List (List String)) :
    (ofStages stages).flatMap spelling = ("|".intercalate (stages.map ":".intercalate)).toList := by
  rw [ofStages, flatMap_intercalate, String.toList_intercalate, List.map_map, List.map_map]
  exact congrArg _ (List.map_congr_left fun stage _ => spelling_ofStage stage)

/-- Colons and pipes join what may stand in a marker. -/
theorem IsBody.intercalate {sep : Lexeme} (hsep : sep = .colon ∨ sep = .pipe)
    {bodies : List (List Lexeme)} (h : ∀ body ∈ bodies, IsBody body) :
    IsBody ([sep].intercalate bodies) := by
  have hcons : ∀ body, IsBody body → IsBody (sep :: body) := by
    intro body hbody
    rcases hsep with rfl | rfl
    · exact ⟨.colon hbody.shape, List.forall_mem_cons.mpr ⟨by simp, hbody.flat⟩⟩
    · exact ⟨.pipe hbody.shape, List.forall_mem_cons.mpr ⟨by simp, hbody.flat⟩⟩
  have hhead : ∀ l ∈ (sep :: [] : List Lexeme).head?, l.holdsRun = false := by
    rcases hsep with rfl | rfl <;> simp [holdsRun]
  induction bodies with
  | nil => exact ⟨.nil true, by simp⟩
  | cons first rest ih =>
    obtain ⟨hfirst, hrest⟩ := List.forall_mem_cons.mp h
    cases rest with
    | nil => rwa [List.intercalate_singleton]
    | cons second more =>
      have hbehind := hcons _ (ih hrest)
      rw [List.intercalate_cons_cons, List.append_assoc, List.singleton_append]
      exact ⟨hfirst.shape_append hbehind.shape hhead,
        List.forall_mem_append.mpr ⟨hfirst.flat, hbehind.flat⟩⟩

theorem isBody_ofPart {s : String} (h : Inert s) (huncut : ':' ∉ s.toList) :
    IsBody (ofPart s) := by
  rw [ofPart]
  by_cases hs : s = ""
  · rw [if_pos hs]
    exact ⟨.nil true, by simp⟩
  · rw [if_neg hs]
    have hword : IsWord s.toList :=
      { nonempty := by simpa using hs
        closed := h.unopened
        unmarked := by
          intro c hc hmark
          simp only [marks, List.mem_cons, List.not_mem_nil, or_false] at hmark
          rcases hmark with rfl | rfl | rfl
          · exact huncut hc
          · exact h.unpiped hc
          · exact h.unclosed hc }
    exact ⟨.word hword (by simp) (.nil true), by simp⟩

theorem isBody_ofStages {stages : List (List String)}
    (h : ∀ stage ∈ stages, ∀ s ∈ stage, Inert s ∧ ':' ∉ s.toList) : IsBody (ofStages stages) := by
  refine IsBody.intercalate (.inr rfl) fun body hbody => ?_
  obtain ⟨stage, hstage, rfl⟩ := List.mem_map.mp hbody
  refine IsBody.intercalate (.inl rfl) fun part hpart => ?_
  obtain ⟨s, hs, rfl⟩ := List.mem_map.mp hpart
  obtain ⟨hinert, huncut⟩ := h stage hstage s hs
  exact isBody_ofPart hinert huncut

end Lexeme

namespace Template

theorem kindsOf_ofPart (s : String) :
    kindsOf (ofPart s) = if s = "" then [] else [.word s] := by
  rw [ofPart]
  by_cases hs : s = ""
  · rw [if_pos hs, if_pos hs]
    rfl
  · rw [if_neg hs, if_neg hs, kindsOf, List.filterMap_cons]
    simp [Token.Kind.ofLexeme?]

theorem kindsOf_ofStage (parts : List String) :
    kindsOf (ofStage parts) = [.colon].intercalate (parts.map fun s => kindsOf (ofPart s)) := by
  rw [kindsOf, ofStage, filterMap_intercalate (by rfl : _ = some Token.Kind.colon), List.map_map]
  rfl

theorem kindsOf_ofStages (stages : List (List String)) :
    kindsOf (ofStages stages) = [.pipe].intercalate (stages.map fun s => kindsOf (ofStage s)) := by
  rw [kindsOf, ofStages, filterMap_intercalate (by rfl : _ = some Token.Kind.pipe), List.map_map]
  rfl

theorem wordsIn_kindsOf_ofPart (s : String) : wordsIn (kindsOf (ofPart s)) = s := by
  rw [kindsOf_ofPart]
  by_cases hs : s = ""
  · rw [if_pos hs, hs]
    rfl
  · rw [if_neg hs]
    simp [wordsIn]

/-- **The parts of a stage** are found again between its colons, without the blanks at their
    ends. -/
theorem partsIn_ofStage {parts : List String} (hne : parts ≠ []) :
    partsIn (kindsOf (ofStage parts)) = parts.map Text.trim := by
  have huncut : ∀ kinds ∈ parts.map fun s => kindsOf (ofPart s), Token.Kind.colon ∉ kinds := by
    intro kinds hkinds
    obtain ⟨s, -, rfl⟩ := List.mem_map.mp hkinds
    rw [kindsOf_ofPart]
    by_cases hs : s = "" <;> simp [hs]
  rw [partsIn, kindsOf_ofStage]
  show (List.splitOn _ _).map _ = parts.map Text.trim
  rw [List.splitOn_intercalate _ huncut (by simpa using hne), List.map_map]
  refine List.map_congr_left fun s hs => ?_
  rw [Function.comp_apply, wordsIn_kindsOf_ofPart]

/-- **The stages of a marker** are found again between its pipes. -/
theorem stagesIn_ofStages {stages : List (List String)} (hne : stages ≠ [])
    (hfull : ∀ stage ∈ stages, stage ≠ []) :
    stagesIn (kindsOf (ofStages stages)) = stages.map (List.map Text.trim) := by
  have huncut : ∀ kinds ∈ stages.map fun s => kindsOf (ofStage s), Token.Kind.pipe ∉ kinds := by
    intro kinds hkinds
    obtain ⟨stage, -, rfl⟩ := List.mem_map.mp hkinds
    rw [kindsOf_ofStage]
    intro hpipe
    rcases mem_intercalate hpipe with hcolon | ⟨part, hpart, hmem⟩
    · cases hcolon
    · obtain ⟨s, -, rfl⟩ := List.mem_map.mp hpart
      rw [kindsOf_ofPart] at hmem
      by_cases hs : s = "" <;> simp [hs] at hmem
  rw [stagesIn, kindsOf_ofStages]
  show (List.splitOn _ _).map _ = stages.map (List.map Text.trim)
  rw [List.splitOn_intercalate _ huncut (by simpa using hne), List.map_map]
  exact List.map_congr_left fun stage hstage => partsIn_ofStage (hfull stage hstage)

/-! ## 8. The parts that are read from a marker -/

/-- Is a token a word? -/
def isWord : Token.Kind → Bool
  | .word _ => true
  | _ => false

/-- The tokens in a marker are punctuation and words. -/
theorem kind_of_mem_body {body : List Lexeme} (h : IsBody body) {kind : Token.Kind}
    (hkind : kind ∈ kindsOf body) :
    kind = .colon ∨ kind = .pipe ∨ ∃ run, IsWord run ∧ kind = .word (String.ofList run) := by
  induction body with
  | nil => exact absurd hkind List.not_mem_nil
  | cons l rest ih =>
    have hrest := ih h.tail
    obtain ⟨hl, -⟩ := List.forall_mem_cons.mp h.flat
    cases h.shape with
    | closing => exact absurd rfl hl.1
    | nested => exact absurd rfl hl.2
    | colon =>
      rcases List.mem_cons.mp hkind with rfl | hmem
      · exact .inl rfl
      · exact hrest hmem
    | pipe =>
      rcases List.mem_cons.mp hkind with rfl | hmem
      · exact .inr (.inl rfl)
      · exact hrest hmem
    | @word run _ hrun =>
      rcases List.mem_cons.mp hkind with rfl | hmem
      · exact .inr (.inr ⟨run, hrun, rfl⟩)
      · exact hrest hmem

/-- Words in a marker do not touch. -/
theorem isChain_kindsOf {body : List Lexeme} (h : IsBody body) :
    (kindsOf body).IsChain fun k l => ¬(isWord k = true ∧ isWord l = true) := by
  induction body with
  | nil => exact .nil
  | cons l rest ih =>
    have hapart := ih h.tail
    have hbehind := h.tail.flat
    obtain ⟨hl, -⟩ := List.forall_mem_cons.mp h.flat
    cases h.shape with
    | closing => exact absurd rfl hl.1
    | nested => exact absurd rfl hl.2
    | colon => exact List.isChain_cons.mpr ⟨fun _ _ => by simp [isWord], hapart⟩
    | pipe => exact List.isChain_cons.mpr ⟨fun _ _ => by simp [isWord], hapart⟩
    | word _ hnext =>
      refine List.isChain_cons.mpr ⟨fun kind hkind => ?_, hapart⟩
      -- a word is followed by punctuation, and punctuation is no word
      cases rest with
      | nil => simp at hkind
      | cons m more =>
        have hm := hnext m rfl
        obtain ⟨hmflat, -⟩ := List.forall_mem_cons.mp hbehind
        cases m with
        | text | word => cases hm
        | closing => exact absurd rfl hmflat.1
        | nested => exact absurd rfl hmflat.2
        | opening | colon | pipe =>
          simp only [Option.mem_def] at hkind
          cases hkind
          simp [isWord]

/-- Between punctuation stands one word or none. -/
theorem word_of_infix {body : List Lexeme} (h : IsBody body) {part : List Token.Kind}
    (hpart : part <:+: kindsOf body) (hcolon : ∀ kind ∈ part, kind ≠ .colon)
    (hpipe : ∀ kind ∈ part, kind ≠ .pipe) :
    part = [] ∨ ∃ run, IsWord run ∧ part = [.word (String.ofList run)] := by
  have hword : ∀ kind ∈ part, ∃ run, IsWord run ∧ kind = .word (String.ofList run) := by
    intro kind hmem
    rcases kind_of_mem_body h (hpart.subset hmem) with rfl | rfl | hrun
    · exact absurd rfl (hcolon _ hmem)
    · exact absurd rfl (hpipe _ hmem)
    · exact hrun
  cases part with
  | nil => exact .inl rfl
  | cons first rest =>
    obtain ⟨⟨run, hrun, rfl⟩, hrest⟩ := List.forall_mem_cons.mp hword
    cases rest with
    | nil => exact .inr ⟨run, hrun, rfl⟩
    | cons second more =>
      obtain ⟨other, -, rfl⟩ := hrest second List.mem_cons_self
      have hpair := List.isChain_cons_cons.mp <| List.IsChain.infix (isChain_kindsOf h) hpart
      exact absurd ⟨rfl, rfl⟩ hpair.1

/-- A word without the blanks at its ends stands as it is. -/
theorem atom_trim {run : List Char} (h : IsWord run) : Atom (Text.trim (String.ofList run)) := by
  have hwithin := Text.trimChars_isInfix run
  have hword : ∀ c ∈ marks, c ∉ Text.trimChars run :=
    fun c hc hmem => h.unmarked c (hwithin.subset hmem) hc
  have hopening := hasOpening_of_infix hwithin h.closed
  have hchars : (Text.trim (String.ofList run)).toList = Text.trimChars run := by
    rw [Text.toList_trim, String.toList_ofList]
  exact
    { unpiped := hchars ▸ hword '|' (by decide)
      unclosed := hchars ▸ hword '\x7d' (by decide)
      unopened := hchars ▸ hopening
      uncut := hchars ▸ hword ':' (by decide)
      trimmed := by rw [Text.trim_eq_self_iff, hchars, Text.trimChars_trimChars] }

/-- **What is read between the punctuation of a marker** stands as it is. -/
theorem atom_of_mem_stagesIn {body : List Lexeme} (h : IsBody body) :
    ∀ stage ∈ stagesIn (kindsOf body), ∀ s ∈ stage, Atom s := by
  intro stage hstage s hs
  obtain ⟨kinds, hkinds, rfl⟩ := List.mem_map.mp hstage
  obtain ⟨part, hpart, rfl⟩ := List.mem_map.mp hs
  obtain ⟨hstretch, hunpiped⟩ := infix_of_mem_splitOnP hkinds
  obtain ⟨hpiece, huncut⟩ := infix_of_mem_splitOnP hpart
  have hcolon : ∀ kind ∈ part, kind ≠ .colon := fun kind hmem => by simpa using huncut kind hmem
  have hpipe : ∀ kind ∈ part, kind ≠ .pipe :=
    fun kind hmem => by simpa using hunpiped kind (hpiece.subset hmem)
  rcases word_of_infix h (hpiece.trans hstretch) hcolon hpipe with rfl | ⟨run, hrun, rfl⟩
  · exact ⟨⟨by simp [wordsIn], by simp [wordsIn], rfl⟩, by simp [wordsIn], rfl⟩
  · have hwords : wordsIn [.word (String.ofList run)] = String.ofList run := by simp [wordsIn]
    rw [hwords]
    exact atom_trim hrun

end Template

/-! ## 9. Reading what was written -/

/-- The part of a text that a piece is written as. -/
def Piece.part : Piece → Part
  | .text s => .text s.toList
  | .call c => .marker (ofStages c.stages)

theorem Call.toList_written (c : Call) :
    c.written.toList = (Piece.part (.call c)).lexemes.flatMap spelling := by
  have hstages : c.stages.map ":".intercalate =
      c.key.text :: c.filters.map FilterCall.written := by
    rw [stages, List.map_cons, List.map_map, c.key.nameParts_eq,
      String.intercalate_cons_of_ne_nil (Text.cutAtColons_ne_nil _), Text.intercalate_cutAtColons]
    rfl
  rw [Piece.part, Part.lexemes, List.flatMap_cons, List.flatMap_append, spelling_ofStages, hstages,
    written, String.toList_append, String.toList_append, List.append_assoc]
  rfl

theorem Template.toList_print (pieces : List Piece) :
    (print pieces).toList = ((pieces.map Piece.part).flatMap Part.lexemes).flatMap spelling := by
  rw [print, String.toList_join]
  induction pieces with
  | nil => rfl
  | cons p rest ih =>
    rw [List.map_cons, List.flatMap_cons, ih, List.map_cons, List.flatMap_cons, List.flatMap_append]
    cases p with
    | text s => simp [Piece.written, Piece.part, Part.lexemes, spelling]
    | call c => rw [Piece.written, c.toList_written]

/-- **A marker is read as a call** exactly if the call can be written, and then with the stages of
    the call. -/
theorem Call.reads_iff {body : List Lexeme} (h : IsBody body) {c : Call} :
    Part.Reads (.marker body) (.call c) ↔ c.Printable ∧ stagesIn (kindsOf body) = c.stages := by
  rw [← denotes_iff (atom_of_mem_stagesIn h)]
  constructor
  · intro hreads
    cases hreads with
    | marker hdenotes => exact hdenotes
  · exact Part.Reads.marker

theorem Call.Printable.isBody {c : Call} (h : c.Printable) : IsBody (ofStages c.stages) :=
  isBody_ofStages fun stage hstage s hs =>
    ⟨(h.atom stage hstage s hs).toInert, (h.atom stage hstage s hs).uncut⟩

/-- The stages of a printable call have no blanks to lose. -/
theorem Call.Printable.map_trim_stages {c : Call} (h : c.Printable) :
    c.stages.map (List.map Text.trim) = c.stages := by
  conv_rhs => rw [← List.map_id c.stages]
  refine List.map_congr_left fun stage hstage => ?_
  conv_rhs => rw [id_eq, ← List.map_id stage]
  exact List.map_congr_left fun s hs => (h.atom stage hstage s hs).trimmed

theorem Call.Printable.reads {c : Call} (h : c.Printable) :
    (Piece.part (.call c)).Reads (.call c) := by
  have hfull : ∀ stage ∈ c.stages, stage ≠ [] := by
    intro stage hstage
    rcases List.mem_cons.mp hstage with rfl | hrest
    · exact List.cons_ne_nil _ _
    · obtain ⟨f, -, rfl⟩ := List.mem_map.mp hrest
      exact List.cons_ne_nil _ _
  refine (Call.reads_iff h.isBody).mpr ⟨h, ?_⟩
  rw [stagesIn_ofStages (by simp [Call.stages]) hfull, h.map_trim_stages]

namespace Template

theorem Separate.tail {p : Piece} {rest : List Piece} (h : Separate (p :: rest)) :
    Separate rest where
  stands q hq := h.stands q (List.mem_cons_of_mem p hq)
  apart := h.apart.tail

/-- Pieces that do not run into each other are written as closed parts. -/
theorem Separate.closed {pieces : List Piece} (h : Separate pieces) :
    Closed (pieces.map Piece.part) := by
  induction pieces with
  | nil => exact .nil
  | cons p rest ih =>
    have hrest := ih h.tail
    have hp := h.stands p List.mem_cons_self
    cases p with
    | call c => exact .marker (Call.Printable.isBody hp) hrest
    | text s =>
      refine .text ⟨by simpa using hp.1, hp.2⟩ ?_ hrest
      cases rest with
      | nil => simp
      | cons q more =>
        cases q with
        | text t => cases (List.isChain_cons_cons.mp h.apart).1
        | call c => simp [Piece.part, Part.isText]

/-- And these parts are read as the pieces. -/
theorem Separate.reads {pieces : List Piece} (h : Separate pieces) :
    List.Forall₂ Part.Reads (pieces.map Piece.part) pieces := by
  induction pieces with
  | nil => exact .nil
  | cons p rest ih =>
    refine .cons ?_ (ih h.tail)
    have hp := h.stands p List.mem_cons_self
    cases p with
    | text s =>
      have hself := Part.Reads.text s.toList
      rwa [String.ofList_toList] at hself
    | call c => exact Call.Printable.reads hp

/-- **What closed parts are read as** does not run into each other. -/
theorem separate_of_reads {parts : List Part} (hparts : Closed parts) {pieces : List Piece}
    (h : List.Forall₂ Part.Reads parts pieces) : Separate pieces := by
  induction hparts generalizing pieces with
  | nil =>
    cases h
    exact ⟨by simp, .nil⟩
  | @text run rest hrun hnext _ ih =>
    obtain ⟨p, others, hp, hothers, rfl⟩ := List.forall₂_cons_left_iff.mp h
    cases hp
    have hrest := ih hothers
    refine ⟨List.forall_mem_cons.mpr ⟨⟨?_, ?_⟩, hrest.stands⟩,
      List.isChain_cons.mpr ⟨fun q hq => ?_, hrest.apart⟩⟩
    · simpa using hrun.nonempty
    · rw [String.toList_ofList]
      exact hrun.closed
    · -- the next part is a marker, so that the next piece is a call
      cases hothers with
      | nil => cases hq
      | cons hfirst _ =>
        cases hq
        cases hfirst with
        | text => exact absurd (hnext _ rfl) (by simp [Part.isText])
        | marker => rfl
  | @marker body rest hbody _ ih =>
    obtain ⟨p, others, hp, hothers, rfl⟩ := List.forall₂_cons_left_iff.mp h
    have hrest := ih hothers
    obtain ⟨c, rfl⟩ : ∃ c, p = .call c := by
      cases hp
      exact ⟨_, rfl⟩
    have hc : c.Printable := ((Call.reads_iff hbody).mp hp).1
    exact ⟨List.forall_mem_cons.mpr ⟨hc, hrest.stands⟩,
      List.isChain_cons.mpr ⟨fun _ _ => rfl, hrest.apart⟩⟩

/-- A text with an opening has a marker, if it is made of closed parts. -/
theorem exists_call_of_reads {parts : List Part} (hparts : Closed parts) {pieces : List Piece}
    (h : List.Forall₂ Part.Reads parts pieces)
    (hopening : hasOpening ((parts.flatMap Part.lexemes).flatMap spelling) = true) :
    ∃ p ∈ pieces, p.isText = false := by
  have hmarker : ∀ {body rest pieces}, List.Forall₂ Part.Reads (.marker body :: rest) pieces →
      ∃ p ∈ pieces, p.isText = false := by
    intro body rest pieces h
    obtain ⟨p, others, hp, -, rfl⟩ := List.forall₂_cons_left_iff.mp h
    cases hp
    exact ⟨_, List.mem_cons_self, rfl⟩
  cases hparts with
  | nil => cases hopening
  | marker => exact hmarker h
  | @text run rest hrun hnext hrest =>
    obtain ⟨p, others, -, hothers, rfl⟩ := List.forall₂_cons_left_iff.mp h
    cases hrest with
    | nil =>
      simp only [List.flatMap_cons, List.flatMap_nil, Part.lexemes, List.append_nil, spelling,
        hrun.closed] at hopening
      cases hopening
    | text => exact absurd (hnext _ rfl) (by simp [Part.isText])
    | marker =>
      obtain ⟨q, hq, hcall⟩ := hmarker hothers
      exact ⟨q, List.mem_cons_of_mem p hq, hcall⟩

/-- What is written has an opening. -/
theorem Printable.hasOpening_print {pieces : List Piece} (h : Printable pieces) :
    hasOpening (print pieces).toList = true := by
  obtain ⟨p, hp, hcall⟩ := h.exists_call
  obtain ⟨c, rfl⟩ : ∃ c, p = .call c := by
    cases p with
    | text s => cases hcall
    | call c => exact ⟨c, rfl⟩
  obtain ⟨before, after, rfl⟩ := List.append_of_mem hp
  rw [toList_print, ← Bool.not_eq_false]
  intro hclosed
  simp only [List.map_append, List.map_cons, List.flatMap_append, List.flatMap_cons,
    ← List.append_assoc] at hclosed
  have hmarker := hasOpening_of_infix ⟨_, _, rfl⟩ hclosed
  simp [Piece.part, Part.lexemes, spelling, hasOpening] at hmarker

/-- What is written is read again. -/
theorem Printable.read_print {pieces : List Piece} (h : Printable pieces) (path : DocPath) :
    read (print pieces) path = .ok (.interpolated pieces) :=
  (read_eq_ok_iff h.hasOpening_print).mpr
    ⟨pieces.map Piece.part, pieces, h.closed, toList_print pieces, h.reads, rfl⟩

/-- What is read from a text with an opening can be written. -/
theorem printable_of_read {text : String} {path : DocPath} {e : Expr}
    (hopening : hasOpening text.toList = true) (h : read text path = .ok e) :
    ∃ pieces, e = .interpolated pieces ∧ Printable pieces := by
  obtain ⟨parts, pieces, hparts, htext, hreads, rfl⟩ := (read_eq_ok_iff hopening).mp h
  rw [htext] at hopening
  exact ⟨pieces, rfl, separate_of_reads hparts hreads,
    exists_call_of_reads hparts hreads hopening⟩

end Template

/-- **Templates are written and read without loss.** The text of a printable template is parsed as
    the template, and nothing is reported; and what is parsed from a text with an opening is a
    printable template, so that it is parsed again from the way it is written. -/
theorem Template.print_round_trip (path : DocPath) :
    (∀ pieces, Printable pieces →
      Parse.text (print pieces) path = Parse.pure (.interpolated pieces)) ∧
    ∀ text e options depth found after, hasOpening text.toList = true →
      Parse.text text path options depth found = (some e, after) →
      ∃ pieces, e = .interpolated pieces ∧ Printable pieces ∧
        Parse.text (print pieces) path = Parse.pure e := by
  constructor
  · exact fun pieces h => Parse.text_eq_pure (h.read_print path)
  · intro text e options depth found after hopening h
    obtain ⟨pieces, rfl, hpieces⟩ := printable_of_read hopening (Parse.read_of_text h)
    exact ⟨pieces, rfl, hpieces, Parse.text_eq_pure (hpieces.read_print path)⟩

/-- A template with all kinds of pieces, and a text with blanks that are not written again. -/
theorem Template.print_round_trip_greeting :
    Parse.text "Hi $$\x7buser:na:me|or::x y\x7d\x7b!" .root = Parse.pure (.interpolated
      [.text "Hi $", .call ⟨⟨"user", "na:me"⟩, [⟨"or", ["", "x y"]⟩]⟩, .text "\x7b!"]) ∧
    ∃ pieces, Expr.interpolated [.call ⟨⟨"user", "name"⟩, []⟩] = .interpolated pieces ∧
      Printable pieces ∧ Parse.text (print pieces) .root =
        Parse.pure (.interpolated [.call ⟨⟨"user", "name"⟩, []⟩]) := by
  obtain ⟨hprint, hread⟩ := Template.print_round_trip .root
  constructor
  · exact hprint
      [.text "Hi $", .call ⟨⟨"user", "na:me"⟩, [⟨"or", ["", "x y"]⟩]⟩, .text "\x7b!"] (by decide)
  · exact hread "$\x7b user : name \x7d" _ .default 0 ⟨Report.withLimit 1, false⟩
      ⟨Report.withLimit 1, false⟩ (by decide) (by rfl)

end Stencil
