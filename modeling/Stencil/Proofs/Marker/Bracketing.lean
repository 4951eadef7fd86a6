import Stencil.Proofs.Marker.Columns

/-!
# Texts tiled and bracketed

The tokens of a text leave out the openings inside markers. This file fixes

* the tiles of a text (`Tile`): its tokens and the openings that are skipped, each with its column,
  and when they tile the text (`Text.TiledBy`);
* how tiles are bracketed (`Bracketing`): runs and whole markers, and last, perhaps, a marker that
  is not closed (`Bracketing.WellFormed`);
* what a bracketing shows to be wrong (`Bracketing.faults`).

Every text has such a bracketing, whose tokens are those of the text, and what is wrong with the
text is what the bracketing shows (`Lexed.exists_bracketing`). A marker that is not closed is the
last thing found to be wrong, so it can be counted without being stored
(`Bracketing.exists_unclosedMarker_take_iff`).
-/

namespace Stencil

open Lexeme Template

/-! ## 1. Tiles -/

/-- How a token is written. -/
def Token.Kind.spelling : Token.Kind → List Char
  | .text s => s.toList
  | .opening => ['$', '\x7b']
  | .word s => s.toList
  | .colon => [':']
  | .pipe => ['|']
  | .closing => ['\x7d']
  | .endOfText => []

/-- A piece of a text: a token, or an opening inside a marker, of which there is no token. -/
inductive Tile where
  | token (t : Token)
  | skipped (column : UInt32)
  deriving DecidableEq, Repr

namespace Tile

/-- How a tile is written. -/
def spelling : Tile → List Char
  | .token t => t.kind.spelling
  | .skipped _ => ['$', '\x7b']

/-- The column at which a tile begins. -/
def column : Tile → UInt32
  | .token t => t.column
  | .skipped column => column

/-- The token that a tile is, if it is one. -/
def token? : Tile → Option Token
  | .token t => some t
  | .skipped _ => none

/-- The column of an opening that is skipped. -/
def skipped? : Tile → Option UInt32
  | .token _ => none
  | .skipped column => some column

/-- What may stand in a marker: words, colons, pipes, and openings that are skipped. -/
inductive Inside : Tile → Prop where
  | word {s : String} {column : UInt32} (h : IsWord s.toList) : Inside (.token ⟨.word s, column⟩)
  | colon (column : UInt32) : Inside (.token ⟨.colon, column⟩)
  | pipe (column : UInt32) : Inside (.token ⟨.pipe, column⟩)
  | skipped (column : UInt32) : Inside (.skipped column)

/-- The tile of a lexeme at its place. -/
def ofPlaced (p : Placed) : Tile :=
  match Token.ofPlaced? p with
  | some t => .token t
  | none => .skipped p.column

@[simp] theorem spelling_ofPlaced (l : Lexeme) (column : UInt32) :
    (ofPlaced ⟨l, column⟩).spelling = l.spelling := by
  cases l <;> simp [ofPlaced, Token.ofPlaced?, Token.Kind.ofLexeme?, spelling,
    Token.Kind.spelling, Lexeme.spelling]

@[simp] theorem column_ofPlaced (l : Lexeme) (column : UInt32) :
    (ofPlaced ⟨l, column⟩).column = column := by
  cases l <;> rfl

theorem token?_ofPlaced (p : Placed) : (ofPlaced p).token? = Token.ofPlaced? p := by
  obtain ⟨l, column⟩ := p
  cases l <;> rfl

/-- The tiles of placed lexemes that are skipped are the openings inside markers. -/
theorem filterMap_skipped? (ps : List Placed) :
    (ps.map ofPlaced).filterMap skipped? = nestedColumns ps := by
  induction ps with
  | nil => rfl
  | cons p rest ih =>
    obtain ⟨l, column⟩ := p
    rw [nestedColumns] at ih ⊢
    cases l with
    | nested => exact congrArg (column :: ·) ih
    | text | word | opening | colon | pipe | closing => exact ih

theorem flatMap_spelling_place (offset : Nat) (ls : List Lexeme) :
    ((place offset ls).map ofPlaced).flatMap spelling = ls.flatMap Lexeme.spelling := by
  induction ls generalizing offset with
  | nil => rfl
  | cons l rest ih =>
    rw [place, List.map_cons, List.flatMap_cons, List.flatMap_cons, ih, spelling_ofPlaced]

/-- **The column of a tile** is that of the offset at which the tiles before it end. -/
theorem column_eq_columnAt {offset : Nat} {ls : List Lexeme} {before after : List Tile}
    {tile : Tile} (h : (place offset ls).map ofPlaced = before ++ tile :: after) :
    tile.column = columnAt (offset + (before.flatMap spelling).length) := by
  induction ls generalizing offset before with
  | nil => simp [place] at h
  | cons l rest ih =>
    rw [place, List.map_cons] at h
    cases before with
    | nil =>
      obtain ⟨rfl, -⟩ := List.cons.inj h
      exact column_ofPlaced l _
    | cons first more =>
      obtain ⟨rfl, hrest⟩ := List.cons.inj h
      rw [ih hrest, List.flatMap_cons, List.length_append, spelling_ofPlaced, Nat.add_assoc]

end Tile

/-- Tiles tile a text: written one after the other they are the text, and the column of each is one
    more than the number of the characters before it. -/
structure Text.TiledBy (s : String) (tiles : List Tile) : Prop where
  spelling : tiles.flatMap Tile.spelling = s.toList
  column : ∀ before tile after, tiles = before ++ tile :: after →
    tile.column.toNat = (before.flatMap Tile.spelling).length + 1

/-- **The lexemes of a text tile it.** -/
theorem Text.tiledBy_placedOf {s : String} (h : s.length < 4294967295) :
    Text.TiledBy s ((placedOf s).map Tile.ofPlaced) where
  spelling := by rw [placedOf, Tile.flatMap_spelling_place, scan_spelling]
  column before tile after htiles := by
    have hspelling := congrArg (List.flatMap Tile.spelling) htiles
    rw [placedOf, Tile.flatMap_spelling_place, scan_spelling, List.flatMap_append] at hspelling
    have hlength := congrArg List.length hspelling
    rw [String.length_toList, List.length_append] at hlength
    rw [Tile.column_eq_columnAt htiles, Nat.zero_add, toNat_columnAt (by omega)]

/-! ## 2. Bracketings -/

/-- A stretch of a text: a run outside markers, or a whole marker with what stands in it. -/
inductive Stretch where
  | run (s : String) (column : UInt32)
  | marker (opened : UInt32) (body : List Tile) (closed : UInt32)
  deriving DecidableEq, Repr

namespace Stretch

/-- Is a stretch a run? -/
def isRun : Stretch → Bool
  | .run .. => true
  | .marker .. => false

/-- The tiles of a stretch: its one text, or a marker from its opening to its closing brace. -/
def tiles : Stretch → List Tile
  | .run s column => [.token ⟨.text s, column⟩]
  | .marker opened body closed =>
    .token ⟨.opening, opened⟩ :: body ++ [.token ⟨.closing, closed⟩]

/-- A run is not empty and has no opening, and a marker holds what may stand in one. -/
def WellFormed : Stretch → Prop
  | .run s _ => IsRun s.toList
  | .marker _ body _ => ∀ tile ∈ body, tile.Inside

end Stretch

/-- The tiles of a marker that is not closed: its opening, and what stands behind that. -/
def Tile.ofUnclosed : Option (UInt32 × List Tile) → List Tile
  | none => []
  | some (opened, body) => .token ⟨.opening, opened⟩ :: body

/-- The stretches of a text, and last, perhaps, a marker that is not closed. -/
structure Bracketing where
  stretches : List Stretch
  unclosed : Option (UInt32 × List Tile)
  deriving DecidableEq, Repr

namespace Bracketing

/-- The tiles of the stretches one after the other, and those of the marker that is not closed. -/
def tiles (b : Bracketing) : List Tile :=
  b.stretches.flatMap Stretch.tiles ++ Tile.ofUnclosed b.unclosed

/-- The columns of the openings that are skipped. -/
def skipped (b : Bracketing) : List UInt32 :=
  b.tiles.filterMap Tile.skipped?

/-- The stretches are well formed, no run stands beside a run, and the marker that is not closed
    holds what may stand in a marker, too. -/
structure WellFormed (b : Bracketing) : Prop where
  stretch : ∀ stretch ∈ b.stretches, stretch.WellFormed
  apart : b.stretches.IsChain fun p q => ¬(p.isRun = true ∧ q.isRun = true)
  unclosed : ∀ marker ∈ b.unclosed, ∀ tile ∈ marker.2, tile.Inside

/-- What is wrong with the text at a path: every opening that is skipped, and last the opening of
    the marker that is not closed. -/
def faults (path : DocPath) (b : Bracketing) : List Diagnostic :=
  b.skipped.map (Fault.nestedMarker.atColumn path) ++
    b.unclosed.toList.map fun marker => Fault.unclosedMarker.atColumn path marker.1

theorem length_faults (path : DocPath) (b : Bracketing) :
    (b.faults path).length = b.skipped.length + if b.unclosed.isSome then 1 else 0 := by
  rw [faults, List.length_append, List.length_map, List.length_map]
  cases b.unclosed <;> rfl

/-- **Only a marker that is not closed is found to be one**, behind all the openings that are
    skipped. Among the first faults it is if there are fewer such openings. -/
theorem exists_unclosedMarker_take_iff {path : DocPath} {b : Bracketing} {n : Nat} :
    (∃ d ∈ (b.faults path).take n, d.code = .unclosedMarker) ↔
      b.unclosed.isSome = true ∧ b.skipped.length < n := by
  rw [faults, List.take_append, List.length_map]
  constructor
  · intro h
    obtain ⟨d, hd, hcode⟩ := h
    rcases List.mem_append.mp hd with hskipped | hunclosed
    · obtain ⟨column, -, rfl⟩ := List.mem_map.mp (List.mem_of_mem_take hskipped)
      cases hcode
    · obtain ⟨marker, hmarker, -⟩ := List.mem_map.mp (List.mem_of_mem_take hunclosed)
      have hroom : 0 < n - b.skipped.length :=
        Nat.lt_of_lt_of_le (List.length_pos_of_mem hunclosed) (List.length_take_le _ _)
      exact ⟨Option.isSome_of_mem (Option.mem_toList.mp hmarker), by omega⟩
  · intro h
    obtain ⟨hsome, hroom⟩ := h
    obtain ⟨marker, hmarker⟩ := Option.isSome_iff_exists.mp hsome
    refine ⟨Fault.unclosedMarker.atColumn path marker.1, List.mem_append_right _ ?_, rfl⟩
    rw [hmarker, List.take_of_length_le (by simp; omega)]
    exact List.mem_singleton.mpr rfl

theorem exists_unclosedMarker_iff {path : DocPath} {b : Bracketing} :
    (∃ d ∈ b.faults path, d.code = .unclosedMarker) ↔ b.unclosed.isSome = true := by
  have hall : (b.faults path).take (b.skipped.length + 1) = b.faults path := by
    refine List.take_of_length_le ?_
    rw [length_faults]
    split <;> omega
  rw [← hall, exists_unclosedMarker_take_iff]
  exact and_iff_left (Nat.lt_succ_self _)

/-! ## 3. The bracketing of lexemes -/

/-- A bracketing of lexemes, the first one at an offset. Before them a marker may have been opened
    and some tiles been read in it. -/
structure Brackets (b : Bracketing) (opened : Option (UInt32 × List Tile)) (offset : Nat)
    (ls : List Lexeme) : Prop where
  wf : b.WellFormed
  tiles : b.tiles = Tile.ofUnclosed opened ++ (place offset ls).map Tile.ofPlaced
  unclosed : b.unclosed.map Prod.fst = pending (opened.map Prod.fst) (place offset ls)

variable {b : Bracketing} {opened : UInt32} {body : List Tile} {offset : Nat} {l : Lexeme}
  {rest : List Lexeme}

/-- Only lexemes that start with a run have a bracketing that does. -/
theorem Brackets.isRun_head (h : b.Brackets none offset rest)
    (hnext : ∀ l ∈ rest.head?, l.holdsRun = false) :
    ∀ stretch ∈ b.stretches.head?, stretch.isRun = false := by
  intro stretch hstretch
  obtain ⟨others, hstretches⟩ := List.head?_eq_some_iff.mp hstretch
  cases stretch with
  | marker => rfl
  | run s column =>
    have htiles := h.tiles
    rw [Bracketing.tiles, hstretches] at htiles
    cases rest with
    | nil => simp [Stretch.tiles, Tile.ofUnclosed, place] at htiles
    | cons l rest =>
      have hfirst : Tile.token ⟨.text s, column⟩ = Tile.ofPlaced ⟨l, columnAt offset⟩ :=
        (List.cons.inj htiles).1
      cases l with
      | text run => exact absurd (hnext _ rfl) (by simp [holdsRun])
      | word | opening | colon | pipe | closing | nested =>
        simp [Tile.ofPlaced, Token.ofPlaced?, Token.Kind.ofLexeme?] at hfirst

/-- **A run** stands before the stretches of what follows it, if these start with no run. -/
theorem Brackets.text {run : List Char} (hrun : IsRun run)
    (hnext : ∀ l ∈ rest.head?, l.holdsRun = false)
    (h : b.Brackets none (offset + run.length) rest) :
    Brackets ⟨.run (String.ofList run) (columnAt offset) :: b.stretches, b.unclosed⟩ none offset
      (.text run :: rest) where
  wf :=
    { stretch := List.forall_mem_cons.mpr
        ⟨by rwa [Stretch.WellFormed, String.toList_ofList], h.wf.stretch⟩
      apart := List.isChain_cons.mpr
        ⟨fun stretch hstretch => by simp [h.isRun_head hnext stretch hstretch], h.wf.apart⟩
      unclosed := h.wf.unclosed }
  tiles := congrArg (Tile.token ⟨.text (String.ofList run), columnAt offset⟩ :: ·) h.tiles
  unclosed := h.unclosed

/-- **An opening** is the start of a marker in which nothing has been read. -/
theorem Brackets.opening (h : b.Brackets (some (columnAt offset, [])) (offset + 2) rest) :
    b.Brackets none offset (.opening :: rest) where
  wf := h.wf
  tiles := h.tiles
  unclosed := h.unclosed

/-- **A closing brace** makes the open marker a stretch before those of what follows. -/
theorem Brackets.closing (hbody : ∀ tile ∈ body, tile.Inside)
    (h : b.Brackets none (offset + 1) rest) :
    Brackets ⟨.marker opened body (columnAt offset) :: b.stretches, b.unclosed⟩
      (some (opened, body)) offset (.closing :: rest) where
  wf :=
    { stretch := List.forall_mem_cons.mpr ⟨hbody, h.wf.stretch⟩
      apart := List.isChain_cons.mpr ⟨fun _ _ => by simp [Stretch.isRun], h.wf.apart⟩
      unclosed := h.wf.unclosed }
  tiles := by
    have htiles := h.tiles
    rw [Bracketing.tiles, Tile.ofUnclosed, List.nil_append] at htiles
    rw [Bracketing.tiles, List.flatMap_cons, Stretch.tiles, List.append_assoc, htiles,
      List.append_assoc]
    rfl
  unclosed := h.unclosed

/-- What may stand in a marker **joins the tiles that were read in it**. -/
theorem Brackets.inside (hl : l ≠ .opening ∧ l ≠ .closing)
    (h : b.Brackets (some (opened, body ++ [Tile.ofPlaced ⟨l, columnAt offset⟩]))
      (offset + l.spelling.length) rest) :
    b.Brackets (some (opened, body)) offset (l :: rest) where
  wf := h.wf
  tiles := by
    rw [h.tiles, Tile.ofUnclosed, List.cons_append, List.append_assoc]
    rfl
  unclosed := by
    rw [h.unclosed]
    cases l with
    | opening => exact absurd rfl hl.1
    | closing => exact absurd rfl hl.2
    | text | word | colon | pipe | nested => rfl

end Bracketing

namespace Lexeme

/-- Lexemes have a bracketing, whatever was read before them: nothing of a marker (`false`), or the
    opening of one and what may stand in it (`true`). -/
def Bracketable (inside : Bool) (ls : List Lexeme) : Prop :=
  ∀ (opened : Option (UInt32 × List Tile)) (offset : Nat), opened.isSome = inside →
    (∀ marker ∈ opened, ∀ tile ∈ marker.2, tile.Inside) →
      ∃ b : Bracketing, b.Brackets opened offset ls

/-- What may stand in a marker goes in front of what is left of the marker. -/
theorem Bracketable.cons {l : Lexeme} {rest : List Lexeme} (h : Bracketable true rest)
    (hl : l ≠ .opening ∧ l ≠ .closing) (htile : ∀ column, (Tile.ofPlaced ⟨l, column⟩).Inside) :
    Bracketable true (l :: rest) := by
  intro opened offset hinside hbody
  obtain ⟨⟨column, body⟩, rfl⟩ := Option.isSome_iff_exists.mp hinside
  have hgrown : ∀ tile ∈ body ++ [Tile.ofPlaced ⟨l, columnAt offset⟩], tile.Inside :=
    List.forall_mem_append.mpr ⟨hbody _ rfl, List.forall_mem_singleton.mpr (htile _)⟩
  obtain ⟨b, hb⟩ := h (some (column, body ++ [Tile.ofPlaced ⟨l, columnAt offset⟩])) _ rfl
    (by simpa using hgrown)
  exact ⟨b, hb.inside hl⟩

/-- **Lexemes of the right shape have a bracketing.** -/
theorem Shape.bracketable {inside : Bool} {ls : List Lexeme} (h : Shape inside ls) :
    Bracketable inside ls := by
  induction h with
  | nil =>
    intro opened offset _ hbody
    exact ⟨⟨[], opened⟩, ⟨by simp, .nil, hbody⟩, by simp [Bracketing.tiles, place], rfl⟩
  | text hrun hnext _ ih =>
    intro opened offset hinside _
    obtain rfl := Option.not_isSome_iff_eq_none.mp (Bool.eq_false_iff.mp hinside)
    obtain ⟨b, hb⟩ := ih none _ rfl (by simp)
    exact ⟨_, hb.text hrun hnext⟩
  | opening _ ih =>
    intro opened offset hinside _
    obtain rfl := Option.not_isSome_iff_eq_none.mp (Bool.eq_false_iff.mp hinside)
    obtain ⟨b, hb⟩ := ih (some (columnAt offset, [])) (offset + 2) rfl (by simp)
    exact ⟨b, hb.opening⟩
  | closing _ ih =>
    intro opened offset hinside hbody
    obtain ⟨⟨column, body⟩, rfl⟩ := Option.isSome_iff_exists.mp hinside
    obtain ⟨b, hb⟩ := ih none (offset + 1) rfl (by simp)
    exact ⟨_, hb.closing (hbody _ rfl)⟩
  | word hrun _ _ ih =>
    exact ih.cons (by simp) fun column => .word (by rwa [String.toList_ofList])
  | colon _ ih => exact ih.cons (by simp) .colon
  | pipe _ ih => exact ih.cons (by simp) .pipe
  | nested _ ih => exact ih.cons (by simp) .skipped

/-- What is wrong with lexemes is what their bracketing shows to be wrong. -/
theorem faults_eq {b : Bracketing} {offset : Nat} {ls : List Lexeme}
    (h : b.Brackets none offset ls) (path : DocPath) :
    faults path (place offset ls) = b.faults path := by
  have hskipped : nestedColumns (place offset ls) = b.skipped := by
    rw [Bracketing.skipped, h.tiles, Tile.ofUnclosed, List.nil_append, Tile.filterMap_skipped?]
  have hunclosed : pending none (place offset ls) = b.unclosed.map Prod.fst := h.unclosed.symm
  rw [faults, Bracketing.faults, hskipped, hunclosed]
  cases b.unclosed <;> rfl

end Lexeme

/-! ## 4. Texts -/

/-- **Cutting loses nothing, and brackets well.** The tokens of a text with fewer than 2³² - 1
    characters, and the openings that are skipped, tile the text: runs and whole markers, and last,
    perhaps, a marker that is not closed. The end of the text stands one column behind its last
    character. What is found to be wrong is every opening that is skipped, and a marker that is not
    closed exactly if there is one. All of that is counted; but only the first 20 faults are stored,
    and so the marker that is not closed is not if 20 openings are skipped before it. -/
theorem Lexed.exists_bracketing (text : String) (path : DocPath) (h : text.length < 4294967295) :
    ∃ b : Bracketing, b.WellFormed ∧ Text.TiledBy text b.tiles ∧
      (∃ column : UInt32, column.toNat = text.length + 1 ∧ (Lexed.ofText text path).tokens =
        b.tiles.filterMap Tile.token? ++ [⟨.endOfText, column⟩]) ∧
      Lexeme.faults path (placedOf text) = b.faults path ∧
      (Lexed.ofText text path).report =
        Report.empty.addErrors (Lexeme.faults path (placedOf text)) ∧
      ((∃ d ∈ Lexeme.faults path (placedOf text), d.code = .unclosedMarker) ↔
        b.unclosed.isSome = true) ∧
      ((∃ d ∈ (Lexed.ofText text path).report.errors, d.code = .unclosedMarker) ↔
        b.unclosed.isSome = true ∧ b.skipped.length < 20) ∧
      (Lexed.ofText text path).report.totalErrors =
        b.skipped.length + if b.unclosed.isSome then 1 else 0 := by
  obtain ⟨b, hb⟩ := (scan_shape false text.toList).bracketable none 0 rfl (by simp)
  have htiles : b.tiles = (placedOf text).map Tile.ofPlaced := hb.tiles
  have hfaults : Lexeme.faults path (placedOf text) = b.faults path := faults_eq hb path
  have hreport : (Lexed.ofText text path).report = Report.empty.addErrors (b.faults path) :=
    congrArg Report.empty.addErrors hfaults
  have hstored : (Lexed.ofText text path).report.errors = (b.faults path).take 20 := by
    rw [hreport, Report.errors_addErrors (Nat.zero_le _)]
    rfl
  refine ⟨b, hb.wf, ?_, ⟨columnAt text.length, toNat_columnAt h, ?_⟩, hfaults, rfl, ?_, ?_, ?_⟩
  · rw [htiles]
    exact Text.tiledBy_placedOf h
  · rw [htiles, List.filterMap_map]
    have htoken : Tile.token? ∘ Tile.ofPlaced = Token.ofPlaced? := funext Tile.token?_ofPlaced
    rw [htoken, ← String.length_toList]
    rfl
  · rw [hfaults]
    exact Bracketing.exists_unclosedMarker_iff
  · rw [hstored]
    exact Bracketing.exists_unclosedMarker_take_iff
  · rw [hreport, Report.totalErrors_addErrors, b.length_faults]
    exact Nat.zero_add _

/-- A run that ends with a dollar sign, a marker with an opening in it, and a marker without end. -/
theorem Lexed.exists_bracketing_nested : "a$$\x7bb$\x7bc\x7d$\x7b|".length < 4294967295 ∧
    ∃ b : Bracketing, b.WellFormed ∧ Text.TiledBy "a$$\x7bb$\x7bc\x7d$\x7b|" b.tiles ∧
      b.tiles.filterMap Tile.token? = [⟨.text "a$", 1⟩, ⟨.opening, 3⟩, ⟨.word "b", 5⟩,
        ⟨.word "c", 8⟩, ⟨.closing, 9⟩, ⟨.opening, 10⟩, ⟨.pipe, 12⟩] ∧
      b.skipped.length + (if b.unclosed.isSome then 1 else 0) = 2 := by
  have hlength : "a$$\x7bb$\x7bc\x7d$\x7b|".length < 4294967295 := by decide
  obtain ⟨b, hwf, htiled, ⟨column, hcolumn, htokens⟩, -, -, -, -, htotal⟩ :=
    Lexed.exists_bracketing "a$$\x7bb$\x7bc\x7d$\x7b|" .root hlength
  refine ⟨hlength, b, hwf, htiled, ?_, htotal.symm⟩
  have hbefore := congrArg List.dropLast htokens
  rw [List.dropLast_concat] at hbefore
  exact hbefore.symm.trans (by decide)

end Stencil
