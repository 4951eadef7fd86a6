import Stencil.Proofs.Marker.Reading

/-!
# Columns

Every token of a text has a column, and so has everything that is wrong with the markers of the
text. This file fixes

* the columns of a text (`Text.HasColumn`), and those of them at which a marker opens
  (`Text.OpensAt`);
* where a lexeme stands (`Lexeme.Placed.StandsIn`): its column is one of the text, and the column of
  an opening is one at which a marker opens;
* what the runs of tokens keep of that (`Template.Run.Keeps`), as long as every marker is closed:
  the column that lies behind the text then belongs to no marker;
* the diagnostics that point into a text (`Diagnostic.Marks`): those of its lexemes
  (`Lexeme.marks_of_mem_faults`), and those of its markers (`Template.marks_of_mem_pieces`).
-/

namespace Stencil

/-! ## 1. Columns of a text -/

namespace Text

/-- The columns of a text: one for each character, counted from one. -/
def HasColumn (s : String) (column : UInt32) : Prop :=
  1 ≤ column.toNat ∧ column.toNat ≤ s.length

/-- A marker opens at a column: a dollar sign stands there, and an opening brace behind it. -/
def OpensAt (s : String) (column : UInt32) : Prop :=
  1 ≤ column.toNat ∧ s.toList[column.toNat - 1]? = some '$' ∧
    s.toList[column.toNat]? = some '\x7b'

theorem OpensAt.hasColumn {s : String} {column : UInt32} (h : OpensAt s column) :
    HasColumn s column := by
  obtain ⟨hpos, -, hbrace⟩ := h
  obtain ⟨hless, -⟩ := List.getElem?_eq_some_iff.mp hbrace
  rw [String.length_toList] at hless
  exact ⟨hpos, hless.le⟩

end Text

namespace Lexeme

open Text

theorem toNat_columnAt {offset : Nat} (h : offset < 4294967295) :
    (columnAt offset).toNat = offset + 1 := by
  rw [columnAt, Nat.min_eq_left h]
  exact UInt32.toNat_ofNat_of_lt' (Nat.lt_succ_of_le h)

/-- A lexeme is written in a text at its column. -/
def Placed.StandsIn (cs : List Char) (p : Placed) : Prop :=
  ∃ before after, cs = before ++ p.lexeme.spelling ++ after ∧ p.column = columnAt before.length

/-- **Lexemes stand where they are placed**, behind whatever stands before the first one. -/
theorem standsIn_of_mem_place {ls : List Lexeme} {p : Placed} (before : List Char)
    (h : p ∈ place before.length ls) : p.StandsIn (before ++ ls.flatMap spelling) := by
  induction ls generalizing before with
  | nil => cases h
  | cons l rest ih =>
    rw [List.flatMap_cons]
    rcases List.mem_cons.mp h with rfl | hrest
    · exact ⟨before, rest.flatMap spelling, (List.append_assoc _ _ _).symm, rfl⟩
    · have hstands := ih (before ++ l.spelling) (by rwa [List.length_append])
      rwa [List.append_assoc] at hstands

theorem Shape.spelling_ne_nil {inside : Bool} {ls : List Lexeme} (h : Shape inside ls) :
    ∀ l ∈ ls, l.spelling ≠ [] := by
  induction h with
  | nil => simp
  | text hrun _ _ ih => exact List.forall_mem_cons.mpr ⟨hrun.nonempty, ih⟩
  | word hrun _ _ ih => exact List.forall_mem_cons.mpr ⟨hrun.nonempty, ih⟩
  | opening _ ih | colon _ ih | pipe _ ih | nested _ ih | closing _ ih =>
    exact List.forall_mem_cons.mpr ⟨List.cons_ne_nil _ _, ih⟩

/-- The lexemes of a text, each at its place. -/
def placedOf (s : String) : List Placed :=
  place 0 (scan false s.toList)

variable {s : String} {p : Placed}

theorem standsIn_of_mem_placedOf (h : p ∈ placedOf s) : p.StandsIn s.toList := by
  have hstands := standsIn_of_mem_place [] h
  rwa [scan_spelling] at hstands

theorem lexeme_mem_of_mem_place {offset : Nat} {ls : List Lexeme} (h : p ∈ place offset ls) :
    p.lexeme ∈ ls := by
  induction ls generalizing offset with
  | nil => cases h
  | cons l rest ih =>
    rcases List.mem_cons.mp h with rfl | hrest
    · exact List.mem_cons_self
    · exact List.mem_cons_of_mem l (ih hrest)

/-- **The column of a lexeme is a column of the text**, if there are not too many characters to
    count. -/
theorem hasColumn_of_mem_placedOf (hlength : s.length < 4294967295) (h : p ∈ placedOf s) :
    HasColumn s p.column := by
  obtain ⟨before, after, htext, hcolumn⟩ := standsIn_of_mem_placedOf h
  have hspelling := List.length_pos_iff.mpr
    ((scan_shape false s.toList).spelling_ne_nil _ (lexeme_mem_of_mem_place h))
  have hcount := congrArg List.length htext
  rw [String.length_toList, List.length_append, List.length_append] at hcount
  rw [HasColumn, hcolumn, toNat_columnAt (by omega)]
  omega

/-- **At the column of an opening, a marker opens.** -/
theorem opensAt_of_mem_placedOf (hlength : s.length < 4294967295) (h : p ∈ placedOf s)
    (hopening : p.lexeme.spelling = ['$', '\x7b']) : OpensAt s p.column := by
  obtain ⟨before, after, htext, hcolumn⟩ := standsIn_of_mem_placedOf h
  rw [hopening, List.append_assoc] at htext
  have hcount := congrArg List.length htext
  rw [String.length_toList, List.length_append] at hcount
  rw [OpensAt, hcolumn, toNat_columnAt (by omega), htext]
  simp

end Lexeme

/-! ## 2. Diagnostics that point into a text -/

/-- The codes of what is wrong with the opening of a marker. -/
def ErrorCode.openings : List ErrorCode :=
  [.unclosedMarker, .emptyMarker, .nestedMarker]

/-- A diagnostic at a column of the text at a path. If it is about the opening of a marker, a marker
    opens there. -/
structure Diagnostic.Marks (s : String) (path : DocPath) (d : Diagnostic) : Prop where
  at_path : d.path = path
  exists_column : ∃ c, d.column = some c ∧ Text.HasColumn s c ∧
    (d.code ∈ ErrorCode.openings → Text.OpensAt s c)

variable {s : String} {path : DocPath} {opened : UInt32} {d : Diagnostic}

theorem Fault.marks_opening (f : Fault) (h : Text.OpensAt s opened) :
    (f.atColumn path opened).Marks s path :=
  ⟨rfl, opened, rfl, h.hasColumn, fun _ => h⟩

theorem Fault.marks_column {f : Fault} (hcode : f.code ∉ ErrorCode.openings)
    (h : Text.HasColumn s opened) : (f.atColumn path opened).Marks s path :=
  ⟨rfl, opened, rfl, h, fun hmem => absurd hmem hcode⟩

namespace Lexeme

theorem mem_pending {opened : Option UInt32} {ps : List Placed} {c : UInt32}
    (h : pending opened ps = some c) :
    opened = some c ∨ ∃ p ∈ ps, p.lexeme = .opening ∧ p.column = c := by
  induction ps generalizing opened with
  | nil => exact .inl h
  | cons p rest ih =>
    rw [pending] at h
    split at h
    · next hopening =>
      rcases ih h with hcolumn | ⟨q, hq, hfound⟩
      · exact .inr ⟨p, List.mem_cons_self, hopening, Option.some.inj hcolumn⟩
      · exact .inr ⟨q, List.mem_cons_of_mem p hq, hfound⟩
    · rcases ih h with hcolumn | ⟨q, hq, hfound⟩
      · cases hcolumn
      · exact .inr ⟨q, List.mem_cons_of_mem p hq, hfound⟩
    · exact (ih h).imp_right fun ⟨q, hq, hfound⟩ => ⟨q, List.mem_cons_of_mem p hq, hfound⟩

/-- **What is wrong with the lexemes of a text** is reported at openings. -/
theorem marks_of_mem_faults (hlength : s.length < 4294967295)
    (h : d ∈ faults path (placedOf s)) : d.Marks s path := by
  rcases List.mem_append.mp h with hnested | hunclosed
  · obtain ⟨c, hc, rfl⟩ := List.mem_map.mp hnested
    obtain ⟨p, hp, rfl⟩ := List.mem_map.mp hc
    obtain ⟨hplaced, hlexeme⟩ := List.mem_filter.mp hp
    refine Fault.nestedMarker.marks_opening (opensAt_of_mem_placedOf hlength hplaced ?_)
    rw [of_decide_eq_true hlexeme]
    rfl
  · obtain ⟨c, hc, rfl⟩ := List.mem_map.mp hunclosed
    rcases mem_pending (Option.mem_toList.mp hc) with hnone | ⟨p, hplaced, hlexeme, rfl⟩
    · cases hnone
    · refine Fault.unclosedMarker.marks_opening (opensAt_of_mem_placedOf hlength hplaced ?_)
      rw [hlexeme]
      rfl

end Lexeme

namespace Template

open Lexeme Text

/-! ## 3. Runs of tokens -/

/-- A run whose columns are those of a text: a marker starts where one opens. -/
def Run.Keeps (s : String) : Run → Prop
  | .literal _ => True
  | .marker column body => OpensAt s column ∧ ∀ token ∈ body, HasColumn s token.column

/-- **The runs of lexemes keep their columns**, if no marker is open in the end. A marker that is
    open in front of the lexemes has to keep its own. -/
theorem keeps_runs {opened : Option (UInt32 × List Token)} {offset : Nat} {ls : List Lexeme}
    (hcolumns : ∀ p ∈ place offset ls, HasColumn s p.column)
    (hopens : ∀ p ∈ place offset ls, p.lexeme = .opening → OpensAt s p.column)
    (hopened : ∀ state ∈ opened, (Run.marker state.1 state.2).Keeps s)
    (hends : endsInside opened.isSome ls = false) (last : UInt32) :
    ∀ run ∈ runs opened (tokensAt offset ls ++ [⟨.endOfText, last⟩]), run.Keeps s := by
  -- what was collected of an open marker grows with the lexemes, so it is part of the induction
  induction ls generalizing opened offset with
  | nil =>
    cases opened with
    | none => exact fun run hrun => absurd hrun List.not_mem_nil
    | some state => cases hends
  | cons l rest ih =>
    obtain ⟨hcolumn, hcolumns⟩ := List.forall_mem_cons.mp hcolumns
    obtain ⟨hopen, hopens⟩ := List.forall_mem_cons.mp hopens
    have houtside : ∀ state ∈ (none : Option (UInt32 × List Token)),
        (Run.marker state.1 state.2).Keeps s := by simp
    cases opened with
    | none =>
      cases l with
      | text run =>
        exact List.forall_mem_cons.mpr ⟨trivial, ih hcolumns hopens houtside hends⟩
      | opening =>
        have hstarted : ∀ state ∈ some (columnAt offset, ([] : List Token)),
            (Run.marker state.1 state.2).Keeps s := by
          rintro state ⟨⟩
          exact ⟨hopen rfl, by simp⟩
        exact ih hcolumns hopens hstarted hends
      | word | colon | pipe | closing | nested => exact ih hcolumns hopens houtside hends
    | some state =>
      obtain ⟨column, body⟩ := state
      obtain ⟨hmarker, hbody⟩ := hopened (column, body) rfl
      have hgrown : ∀ kind, ∀ state ∈ some (column, (⟨kind, columnAt offset⟩ : Token) :: body),
          (Run.marker state.1 state.2).Keeps s := by
        rintro kind state ⟨⟩
        exact ⟨hmarker, List.forall_mem_cons.mpr ⟨hcolumn, hbody⟩⟩
      cases l with
      | closing =>
        refine List.forall_mem_cons.mpr ⟨⟨hmarker, fun token htoken => ?_⟩,
          ih hcolumns hopens houtside hends⟩
        exact hbody token (List.mem_reverse.mp htoken)
      | nested => exact ih hcolumns hopens hopened hends
      | text | opening | word | colon | pipe => exact ih hcolumns hopens (hgrown _) hends

/-- The runs of a text without faults keep the columns of the text. -/
theorem keeps_runs_ofText (hlength : s.length < 4294967295)
    (hclosed : (Lexed.ofText s path).report.hasErrors = false) :
    ∀ run ∈ runs none (Lexed.ofText s path).tokens, run.Keeps s := by
  obtain ⟨parts, hparts, hscan⟩ := (hasErrors_ofText_iff s path).mp hclosed
  refine keeps_runs (fun p hp => hasColumn_of_mem_placedOf hlength hp)
    (fun p hp hopening => opensAt_of_mem_placedOf hlength hp ?_) (by simp) ?_ _
  · rw [hopening]
    rfl
  · rw [hscan]
    exact hparts.endsInside

/-! ## 4. Markers -/

theorem hasColumn_columnOf {stage : List Token} (hopened : OpensAt s opened)
    (hstage : ∀ token ∈ stage, HasColumn s token.column) :
    HasColumn s (columnOf opened stage) := by
  cases stage with
  | nil => exact hopened.hasColumn
  | cons token rest => exact hstage token List.mem_cons_self

theorem marks_of_key {stage : List Token} (hopened : OpensAt s opened)
    (hstage : ∀ token ∈ stage, HasColumn s token.column)
    (h : key path opened stage = .error d) : d.Marks s path := by
  have hmissing : ((Fault.missingNamespace (Text.trim (written stage))).atColumn path
      (columnOf opened stage)).Marks s path :=
    Fault.marks_column (of_decide_eq_false rfl) (hasColumn_columnOf hopened hstage)
  unfold key at h
  dsimp only at h
  split at h
  · obtain rfl := Except.error.inj h
    split
    · exact Fault.emptyMarker.marks_opening hopened
    · exact hmissing
  · split at h
    · cases h
    · obtain rfl := Except.error.inj h
      exact hmissing
  · obtain rfl := Except.error.inj h
    exact hmissing

theorem marks_of_filter {stage : List Token} (hopened : OpensAt s opened)
    (hstage : ∀ token ∈ stage, HasColumn s token.column)
    (h : filter path opened stage = .error d) : d.Marks s path := by
  have hunnamed : (Fault.emptyFilterName.atColumn path (columnOf opened stage)).Marks s path :=
    Fault.marks_column (of_decide_eq_false rfl) (hasColumn_columnOf hopened hstage)
  unfold filter at h
  split at h
  · obtain rfl := Except.error.inj h
    exact hunnamed
  · split at h
    · obtain rfl := Except.error.inj h
      exact hunnamed
    · cases h

theorem marks_of_filters {stages : List (List Token)} (hopened : OpensAt s opened)
    (hstages : ∀ stage ∈ stages, ∀ token ∈ stage, HasColumn s token.column)
    (h : filters path opened stages = .error d) : d.Marks s path := by
  induction stages with
  | nil => cases h
  | cons stage rest ih =>
    obtain ⟨hstage, hrest⟩ := List.forall_mem_cons.mp hstages
    rw [filters] at h
    cases hfilter : filter path opened stage with
    | error first =>
      rw [hfilter] at h
      obtain rfl := Except.error.inj h
      exact marks_of_filter hopened hstage hfilter
    | ok f =>
      rw [hfilter] at h
      cases hfilters : filters path opened rest with
      | error first =>
        rw [hfilters] at h ih
        exact ih hrest h
      | ok fs =>
        rw [hfilters] at h
        cases h

theorem marks_of_call {body : List Token} (hopened : OpensAt s opened)
    (hbody : ∀ token ∈ body, HasColumn s token.column)
    (h : call path opened body = .error d) : d.Marks s path := by
  have hstages : ∀ stage ∈ stages body, ∀ token ∈ stage, HasColumn s token.column :=
    fun stage hstage token htoken =>
      hbody token ((infix_of_mem_splitOnP hstage).1.subset htoken)
  unfold call at h
  cases hcut : stages body with
  | nil =>
    rw [hcut] at h
    obtain rfl := Except.error.inj h
    exact Fault.emptyMarker.marks_opening hopened
  | cons first rest =>
    rw [hcut] at h hstages
    dsimp only at h
    obtain ⟨hfirst, hrest⟩ := List.forall_mem_cons.mp hstages
    cases hkey : key path opened first with
    | error missing =>
      rw [hkey] at h
      obtain rfl := Except.error.inj h
      exact marks_of_key hopened hfirst hkey
    | ok k =>
      rw [hkey] at h
      cases hfilters : filters path opened rest with
      | error unnamed =>
        rw [hfilters] at h
        obtain rfl := Except.error.inj h
        exact marks_of_filters hopened hrest hfilters
      | ok fs =>
        rw [hfilters] at h
        cases h

theorem marks_of_piece {run : Run} (hkeeps : run.Keeps s) (h : piece path run = .error d) :
    d.Marks s path := by
  cases run with
  | literal text => cases h
  | marker column body =>
    rw [piece] at h
    cases hcall : call path column body with
    | error wrong =>
      rw [hcall] at h
      obtain rfl := Except.error.inj h
      exact marks_of_call hkeeps.1 hkeeps.2 hcall
    | ok c =>
      rw [hcall] at h
      cases h

/-- **What is wrong with the markers of a text** is reported at their columns. -/
theorem marks_of_mem_pieces {rs : List Run} (hkeeps : ∀ run ∈ rs, run.Keeps s)
    (h : d ∈ (pieces path rs).1) : d.Marks s path := by
  induction rs with
  | nil => cases h
  | cons run rest ih =>
    obtain ⟨hrun, hrest⟩ := List.forall_mem_cons.mp hkeeps
    rw [pieces] at h
    cases hpiece : piece path run with
    | error wrong =>
      rw [hpiece] at h
      rcases List.mem_cons.mp h with rfl | hmem
      · exact marks_of_piece hrun hpiece
      · exact ih hrest hmem
    | ok p =>
      rw [hpiece] at h
      exact ih hrest h

end Template

end Stencil
