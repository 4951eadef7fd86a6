import Stencil.Proofs.Dictionary
import Stencil.Proofs.Document.Places
import Stencil.Proofs.Number
import Stencil.Text.Split

/-!
# Paths as pointers

The text of a path has a slash in front of every step, and escapes the tilde and the slash inside a
step. This file fixes

* that exchanging `~1` for a slash, and then `~0` for a tilde, undoes the escapes
  (`DocPath.unescape_escape`);
* that the text of a path, cut at its slashes, is the labels of its steps (`DocPath.pieces_text`),
  where a position has its decimal number for a label;
* that labels along a path lead to one node of a document at most (`Json.HasNode.eq_of_labels`), so
  that no two nodes have the same text, the root aside (`DocPath.text_identifies`).
-/

namespace Stencil

/-! ## 1. Exchanging -/

namespace Text

variable {c : Char} {more new : List Char}

/-- What is left out is not looked at. -/
theorem replaceChars_skip (old new front rest : List Char) :
    replaceChars old new front.length (front ++ rest) = replaceChars old new 0 rest := by
  induction front with
  | nil => rfl
  | cons c front ih => exact ih

/-- An occurrence in front is exchanged. -/
theorem replaceChars_append (c : Char) (more new rest : List Char) :
    replaceChars (c :: more) new 0 (c :: more ++ rest) =
      new ++ replaceChars (c :: more) new 0 rest := by
  have hprefix : (c :: more).isPrefixOf (c :: (more ++ rest)) = true :=
    List.isPrefixOf_iff_prefix.mpr (List.prefix_append (c :: more) rest)
  rw [List.cons_append, replaceChars, if_pos hprefix]
  exact congrArg _ (replaceChars_skip (c :: more) new more rest)

/-- A character that begins no occurrence stays. -/
theorem replaceChars_cons {old : List Char} {rest : List Char} (h : ¬old <+: c :: rest) :
    replaceChars old new 0 (c :: rest) = c :: replaceChars old new 0 rest := by
  rw [replaceChars, if_neg (mt List.isPrefixOf_iff_prefix.mp h)]

theorem replaceChars_cons_of_ne {d : Char} (h : d ≠ c) (rest : List Char) :
    replaceChars (c :: more) new 0 (d :: rest) = d :: replaceChars (c :: more) new 0 rest :=
  replaceChars_cons fun hprefix => h (List.cons_prefix_cons.mp hprefix).1.symm

end Text

/-! ## 2. Escapes -/

/-- What a step is called: a field by its name, an element by its position in decimal. -/
def Segment.label : Segment → String
  | .index i => Decimal.naturalText i
  | .field name => name

namespace DocPath

/-- A label in the text of a path. -/
def escape (label : String) : String :=
  String.ofList (label.toList.flatMap escapeChar)

/-- A piece of the text of a path, with the slashes and then the tildes as they were. -/
def unescape (piece : String) : String :=
  Text.replace "~0" "~" (Text.replace "~1" "/" piece)

/-- A character in which the tilde is still escaped, and the slash no more. -/
def escapeTilde (c : Char) : List Char :=
  if c = '~' then ['~', '0'] else [c]

theorem replaceChars_slash (cs : List Char) :
    Text.replaceChars ['~', '1'] ['/'] 0 (cs.flatMap escapeChar) = cs.flatMap escapeTilde := by
  induction cs with
  | nil => rfl
  | cons c rest ih =>
    rw [List.flatMap_cons, List.flatMap_cons]
    by_cases htilde : c = '~'
    · subst htilde
      have hno : ¬['~', '1'] <+: '~' :: '0' :: rest.flatMap escapeChar := by simp
      show Text.replaceChars ['~', '1'] ['/'] 0 ('~' :: '0' :: rest.flatMap escapeChar) =
        '~' :: '0' :: rest.flatMap escapeTilde
      rw [Text.replaceChars_cons hno, Text.replaceChars_cons_of_ne (by decide), ih]
    · by_cases hslash : c = '/'
      · subst hslash
        have hexchanged := Text.replaceChars_append '~' ['1'] ['/'] (rest.flatMap escapeChar)
        rw [ih] at hexchanged
        exact hexchanged
      · rw [escapeChar, if_neg htilde, if_neg hslash, escapeTilde, if_neg htilde,
          List.singleton_append, Text.replaceChars_cons_of_ne htilde, ih, List.singleton_append]

theorem replaceChars_tilde (cs : List Char) :
    Text.replaceChars ['~', '0'] ['~'] 0 (cs.flatMap escapeTilde) = cs := by
  induction cs with
  | nil => rfl
  | cons c rest ih =>
    rw [List.flatMap_cons]
    by_cases htilde : c = '~'
    · subst htilde
      have hexchanged := Text.replaceChars_append '~' ['0'] ['~'] (rest.flatMap escapeTilde)
      rw [ih] at hexchanged
      exact hexchanged
    · rw [escapeTilde, if_neg htilde, List.singleton_append,
        Text.replaceChars_cons_of_ne htilde, ih]

/-- **Escapes are undone**, the slash first: a tilde that is escaped is not taken for the beginning
    of an escaped slash. -/
theorem unescape_escape (label : String) : unescape (escape label) = label := by
  have hslash : "~1".toList = ['~', '1'] ∧ "/".toList = ['/'] := ⟨rfl, rfl⟩
  have htilde : "~0".toList = ['~', '0'] ∧ "~".toList = ['~'] := ⟨rfl, rfl⟩
  rw [unescape, escape, Text.replace, Text.replace]
  simp only [hslash, htilde, String.toList_ofList, replaceChars_slash, replaceChars_tilde,
    String.ofList_toList]

/-! ## 3. Pieces -/

theorem escapeChar_of_isDigit {c : Char} (h : c.isDigit = true) : escapeChar c = [c] := by
  have htilde : c ≠ '~' := by
    intro heq
    subst heq
    cases h
  have hslash : c ≠ '/' := by
    intro heq
    subst heq
    cases h
  rw [escapeChar, if_neg htilde, if_neg hslash]

/-- **A step in the text of a path** is a slash and its label, escaped; in a number there is nothing
    to escape. -/
theorem segmentText_eq (s : Segment) : segmentText s = "/" ++ escape s.label := by
  cases s with
  | field name => rfl
  | index i =>
    have hdigits : (Decimal.digitsOf i).flatMap escapeChar = Decimal.digitsOf i := by
      have hsame : (Decimal.digitsOf i).flatMap escapeChar =
          (Decimal.digitsOf i).flatMap fun c => [c] :=
        List.flatMap_congr fun c hc => escapeChar_of_isDigit (Decimal.isDigit_of_mem_digitsOf hc)
      rw [hsame, List.flatMap_singleton']
    rw [segmentText, Segment.label, escape, Decimal.naturalText, String.toList_ofList, hdigits]

theorem slash_not_mem_escape (label : String) : '/' ∉ (escape label).toList := by
  rw [escape, String.toList_ofList, List.mem_flatMap]
  intro h
  obtain ⟨c, -, hc⟩ := h
  unfold escapeChar at hc
  split at hc
  · simp at hc
  · split at hc
    · simp at hc
    · next hslash => exact hslash (List.mem_singleton.mp hc).symm

/-- The text of some steps without the slash in front. -/
def body (segments : List Segment) : String :=
  String.ofList (['/'].intercalate (segments.map fun s => (escape s.label).toList))

theorem segmentsText_cons (s : Segment) (rest : List Segment) :
    segmentsText (s :: rest) = "/" ++ body (s :: rest) := by
  induction rest generalizing s with
  | nil =>
    rw [segmentsText, segmentText_eq, segmentsText, body, List.map_singleton,
      List.intercalate_singleton, String.ofList_toList, String.append_empty]
  | cons next rest ih =>
    have hbody : body (s :: next :: rest) = escape s.label ++ "/" ++ body (next :: rest) := by
      rw [← String.toList_inj]
      simp [body, List.intercalate_cons_cons]
    rw [segmentsText, segmentText_eq, ih, hbody]
    simp only [String.append_assoc]

/-- The pieces that a text is cut into at its slashes. -/
def pieces (s : String) : List String :=
  (s.toList.splitOn '/').map String.ofList

theorem pieces_body {segments : List Segment} (h : segments ≠ []) :
    pieces (body segments) = segments.map fun s => escape s.label := by
  have hsplit : (body segments).toList.splitOn '/' =
      segments.map fun s => (escape s.label).toList := by
    rw [body, String.toList_ofList]
    refine List.splitOn_intercalate '/' (fun piece hpiece => ?_) (by simpa using h)
    obtain ⟨s, -, rfl⟩ := List.mem_map.mp hpiece
    exact slash_not_mem_escape s.label
  rw [pieces, hsplit, List.map_map]
  exact List.map_congr_left fun s _ => String.ofList_toList

/-- The labels of the steps of a path. -/
def labels (p : DocPath) : List String :=
  p.segments.map Segment.label

@[simp] theorem labels_root : root.labels = [] := rfl

@[simp] theorem labels_field (p : DocPath) (name : String) :
    (p.field name).labels = p.labels ++ [name] :=
  List.map_append

@[simp] theorem labels_index (p : DocPath) (i : Nat) :
    (p.index i).labels = p.labels ++ [Decimal.naturalText i] :=
  List.map_append

/-- **The text of a path holds the labels of its steps**: what stands behind its first slash, cut at
    the other ones and without the escapes. -/
theorem exists_pieces_text {p : DocPath} (h : p ≠ root) :
    ∃ rest, p.text = "/" ++ rest ∧ (pieces rest).map unescape = p.labels := by
  obtain ⟨segments⟩ := p
  cases segments with
  | nil => exact absurd rfl h
  | cons s rest =>
    refine ⟨body (s :: rest), ?_, ?_⟩
    · rw [text, if_neg (List.cons_ne_nil s rest), segmentsText_cons]
    · rw [pieces_body (List.cons_ne_nil s rest), List.map_map]
      exact List.map_congr_left fun t _ => unescape_escape t.label

/-- Paths with one text have the labels of their steps in common. -/
theorem labels_eq_of_text_eq {p q : DocPath} (hp : p ≠ root) (hq : q ≠ root)
    (h : p.text = q.text) : p.labels = q.labels := by
  obtain ⟨rest, htext, hlabels⟩ := exists_pieces_text hp
  obtain ⟨other, htext', hlabels'⟩ := exists_pieces_text hq
  rw [htext, htext', String.append_right_inj] at h
  rw [← hlabels, ← hlabels', h]

end DocPath

/-! ## 4. Nodes of a document -/

theorem Decimal.naturalText_inj {m n : Nat} (h : naturalText m = naturalText n) : m = n := by
  rw [← natOf_digitsOf m, ← natOf_digitsOf n]
  exact congrArg natOf (String.ofList_injective h)

namespace Json

variable {document a b : Json} {p q : DocPath}

theorem itemsDistinct_iff {items : List Json} :
    itemsDistinct items = true ↔ ∀ item ∈ items, item.isDistinct = true := by
  induction items with
  | nil => simp [itemsDistinct]
  | cons item rest ih => simp [itemsDistinct, ih]

/-- A document that repeats no field does not do so in its nodes. -/
theorem HasNode.isDistinct (h : document.HasNode p a) (hdistinct : document.isDistinct = true) :
    a.isDistinct = true := by
  induction h with
  | root => exact hdistinct
  | field _ hfield ih =>
    rw [Json.isDistinct, Bool.and_eq_true] at ih
    exact fieldsDistinct_iff.mp ih.2 _ hfield
  | item _ hitem ih => exact itemsDistinct_iff.mp ih _ (List.mem_of_getElem? hitem)

/-- **Labels lead to one node at most**: where they come to an object the next one is the name of a
    field, and where they come to an array it is a position. -/
theorem HasNode.eq_of_labels (hp : document.HasNode p a) (hq : document.HasNode q b)
    (hdistinct : document.isDistinct = true) (hlabels : p.labels = q.labels) : p = q ∧ a = b := by
  induction hp generalizing q b with
  | root =>
    cases hq with
    | root => exact ⟨rfl, rfl⟩
    | field h _ => simp at hlabels
    | item h _ => simp at hlabels
  | field hobject hfield ih =>
    cases hq with
    | root => simp at hlabels
    | field hobject' hfield' =>
      rw [DocPath.labels_field, DocPath.labels_field] at hlabels
      obtain ⟨hbefore, hname⟩ := List.append_inj' hlabels rfl
      obtain ⟨rfl, hfields⟩ := ih hobject' hbefore
      obtain rfl := List.singleton_inj.mp hname
      obtain rfl := Json.object.inj hfields
      have hnames := hobject.isDistinct hdistinct
      rw [Json.isDistinct, Bool.and_eq_true, decide_eq_true_iff] at hnames
      have hget := (Dictionary.get?_eq_some_iff hnames.1).mpr hfield
      have hget' := (Dictionary.get?_eq_some_iff hnames.1).mpr hfield'
      exact ⟨rfl, Option.some.inj (hget.symm.trans hget')⟩
    | item harray hitem =>
      rw [DocPath.labels_field, DocPath.labels_index] at hlabels
      cases (ih harray (List.append_inj' hlabels rfl).1).2
  | item harray hitem ih =>
    cases hq with
    | root => simp at hlabels
    | field hobject' hfield' =>
      rw [DocPath.labels_index, DocPath.labels_field] at hlabels
      cases (ih hobject' (List.append_inj' hlabels rfl).1).2
    | item harray' hitem' =>
      rw [DocPath.labels_index, DocPath.labels_index] at hlabels
      obtain ⟨hbefore, hposition⟩ := List.append_inj' hlabels rfl
      obtain ⟨rfl, hitems⟩ := ih harray' hbefore
      obtain rfl := Decimal.naturalText_inj (List.singleton_inj.mp hposition)
      obtain rfl := Json.array.inj hitems
      exact ⟨rfl, Option.some.inj (hitem.symm.trans hitem')⟩

end Json

/-- **The text of a path tells the node.** Behind its first slash stand the labels of the steps with
    slashes between them, and the escapes can be undone. So in a document in which no object has a
    field twice, two different nodes have different texts, unless one of them is the root. -/
theorem DocPath.text_identifies :
    (∀ p : DocPath, p ≠ root → ∃ rest, p.text = "/" ++ rest ∧
      (pieces rest).map unescape = p.segments.map Segment.label) ∧
    ∀ (document : Json), document.isDistinct = true → ∀ (p q : DocPath) (a b : Json),
      document.HasNode p a → document.HasNode q b → p ≠ root → q ≠ root → (p, a) ≠ (q, b) →
        p.text ≠ q.text := by
  refine ⟨fun p => exists_pieces_text, ?_⟩
  intro document hdistinct p q a b hp hq hproot hqroot hdifferent htext
  obtain ⟨hpath, htree⟩ := hp.eq_of_labels hq hdistinct (labels_eq_of_text_eq hproot hqroot htext)
  exact hdifferent (Prod.ext hpath htree)

/-- A field, and beside it one with the name that the first has in the text of its path. -/
theorem DocPath.text_identifies_slash_tilde :
    let document : Json := .array [.object [("/", .null), ("~1", .null)]]
    let slash := (root.index 0).field "/"
    let tilde := (root.index 0).field "~1"
    document.isDistinct = true ∧ document.HasNode slash .null ∧ document.HasNode tilde .null ∧
      slash.text = "/0/~1" ∧ (pieces "0/~1").map unescape = ["0", "/"] ∧
      slash.text ≠ tilde.text := by
  intro document slash tilde
  have hdistinct : document.isDistinct = true := by decide +kernel
  have hobject : document.HasNode (root.index 0) (.object [("/", .null), ("~1", .null)]) :=
    .item .root rfl
  have hslash : document.HasNode slash .null := hobject.field List.mem_cons_self
  have htilde : document.HasNode tilde .null :=
    hobject.field (List.mem_cons_of_mem _ List.mem_cons_self)
  have hpath : slash ≠ tilde := by decide
  have htext : slash.text = "/0/~1" := by decide +kernel
  obtain ⟨hpieces, hnodes⟩ := text_identifies
  obtain ⟨rest, hrest, hlabels⟩ := hpieces slash (by decide)
  rw [htext] at hrest
  obtain rfl : rest = "0/~1" := (String.append_right_inj "/").mp hrest.symm
  refine ⟨hdistinct, hslash, htilde, htext, hlabels.trans (by decide), ?_⟩
  exact hnodes document hdistinct slash tilde .null .null hslash htilde (by decide) (by decide)
    fun heq => hpath (Prod.mk.inj heq).1

/-- In two documents, an element and a field can have one text; and so have the root and a field
    with the empty name. -/
example : (DocPath.root.index 0).text = (DocPath.root.field "0").text ∧
    DocPath.root.text = (DocPath.root.field "").text := by decide +kernel

end Stencil
