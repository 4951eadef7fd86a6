import Mathlib.Data.List.Chain
import Stencil.Marker.Template

/-!
# The lexemes of a text

Which lists of lexemes are those of a text, and what a text without faults is made of. This file
fixes

* the shape of the lexemes of a text (`Shape`): runs and openings outside markers, words and
  punctuation inside, no two runs side by side, and no opening hidden in a run. Cutting gives a
  list of this shape (`scan_shape`), and a list of this shape is what its own spelling is cut into
  (`scan_of_shape`); so texts and lists of this shape are in one-to-one correspondence;
* the faults of a text, read off its lexemes without columns (`faults_eq_nil_iff`);
* the closed parts of a text (`Part`): a run, or a whole marker. A text has no faults exactly if it
  is made of such parts (`exists_parts_iff`).
-/

namespace Stencil

/-! ## 1. Openings -/

namespace Template

/-- Does a character open a marker, together with what follows it? -/
def Opens (c : Char) (rest : List Char) : Prop :=
  c = '$' ∧ rest.head? = some '\x7b'

theorem opens_cons {c d : Char} {rest : List Char} :
    Opens c (d :: rest) ↔ c = '$' ∧ d = '\x7b' := by
  simp [Opens]

theorem exists_of_opens {c : Char} {rest : List Char} (h : Opens c rest) :
    ∃ tail, c :: rest = '$' :: '\x7b' :: tail := by
  obtain ⟨rfl, hhead⟩ := h
  obtain ⟨tail, rfl⟩ := List.head?_eq_some_iff.mp hhead
  exact ⟨tail, rfl⟩

/-- A character that opens no marker matches no pattern of an opening. -/
theorem ne_of_not_opens {c : Char} {rest : List Char} (h : ¬Opens c rest) (tail : List Char)
    (hc : c = '$') (hrest : rest = '\x7b' :: tail) : False := by
  subst hrest
  exact h (opens_cons.mpr ⟨hc, rfl⟩)

theorem hasOpening_cons {c : Char} {rest : List Char} :
    hasOpening (c :: rest) = false ↔ ¬Opens c rest ∧ hasOpening rest = false := by
  constructor
  · intro h
    have hopens : ¬Opens c rest := by
      intro hc
      obtain ⟨tail, htail⟩ := exists_of_opens hc
      rw [htail] at h
      simp [hasOpening] at h
    rw [hasOpening.eq_2 c rest (ne_of_not_opens hopens)] at h
    exact ⟨hopens, h⟩
  · intro ⟨hopens, hrest⟩
    rw [hasOpening.eq_2 c rest (ne_of_not_opens hopens)]
    exact hrest

/-- A stretch of a text holds no opening that the text does not hold. -/
theorem hasOpening_of_infix {cs whole : List Char} (hcs : cs <:+: whole)
    (h : hasOpening whole = false) : hasOpening cs = false := by
  obtain ⟨before, after, rfl⟩ := hcs
  induction before with
  | cons c rest ih =>
    rw [List.cons_append, List.cons_append, hasOpening_cons] at h
    exact ih h.2
  | nil =>
    rw [List.nil_append] at h
    induction cs with
    | nil => rfl
    | cons c rest ih =>
      rw [List.cons_append, hasOpening_cons] at h
      refine hasOpening_cons.mpr ⟨fun hc => h.1 ?_, ih h.2⟩
      obtain ⟨tail, htail⟩ := exists_of_opens hc
      obtain ⟨rfl, rfl⟩ := List.cons.inj htail
      exact opens_cons.mpr ⟨rfl, rfl⟩

end Template

namespace Lexeme

open Template

/-! ## 2. The shape of the lexemes of a text -/

/-- The characters that end a word. -/
def marks : List Char := [':', '|', '\x7d']

/-- Characters that form a run of text. -/
structure IsRun (run : List Char) : Prop where
  nonempty : run ≠ []
  closed : hasOpening run = false

/-- Characters that form a word. -/
structure IsWord (run : List Char) : Prop extends IsRun run where
  unmarked : ∀ c ∈ run, c ∉ marks

/-- A lexeme that would grow if a further run followed it. -/
def holdsRun : Lexeme → Bool
  | .text _ => true
  | .word _ => true
  | _ => false

/-- The lists of lexemes that a text is cut into, from outside a marker (`false`) or from inside
    (`true`). -/
inductive Shape : Bool → List Lexeme → Prop where
  | nil (inside : Bool) : Shape inside []
  | text {run : List Char} {rest : List Lexeme} (hrun : IsRun run)
      (hnext : ∀ l ∈ rest.head?, l.holdsRun = false) (hrest : Shape false rest) :
      Shape false (.text run :: rest)
  | opening {rest : List Lexeme} (hrest : Shape true rest) : Shape false (.opening :: rest)
  | word {run : List Char} {rest : List Lexeme} (hrun : IsWord run)
      (hnext : ∀ l ∈ rest.head?, l.holdsRun = false) (hrest : Shape true rest) :
      Shape true (.word run :: rest)
  | colon {rest : List Lexeme} (hrest : Shape true rest) : Shape true (.colon :: rest)
  | pipe {rest : List Lexeme} (hrest : Shape true rest) : Shape true (.pipe :: rest)
  | nested {rest : List Lexeme} (hrest : Shape true rest) : Shape true (.nested :: rest)
  | closing {rest : List Lexeme} (hrest : Shape false rest) : Shape true (.closing :: rest)

/-- Behind a run, a text goes on with a lexeme that is no opening brace. -/
theorem head_of_next {inside : Bool} {ls : List Lexeme} (h : Shape inside ls)
    (hnext : ∀ l ∈ ls.head?, l.holdsRun = false) :
    (ls.flatMap spelling).head? ≠ some '\x7b' := by
  cases h with
  | nil => simp
  | text => exact absurd (hnext _ rfl) (by simp [holdsRun])
  | word => exact absurd (hnext _ rfl) (by simp [holdsRun])
  | opening => simp [spelling]
  | colon => simp [spelling]
  | pipe => simp [spelling]
  | nested => simp [spelling]
  | closing => simp [spelling]

/-! ## 3. Cutting and spelling -/

theorem scan_text_cons {c : Char} {rest : List Char} (h : ¬Opens c rest) :
    scan false (c :: rest) = consText c (scan false rest) :=
  scan.eq_3 c rest (ne_of_not_opens h)

theorem scan_word_cons {c : Char} {rest : List Char} (h : ¬Opens c rest) (hc : c ∉ marks) :
    scan true (c :: rest) = consWord c (scan true rest) := by
  simp only [marks, List.mem_cons, List.not_mem_nil, or_false, not_or] at hc
  exact scan.eq_8 c rest (ne_of_not_opens h) hc.1 hc.2.1 hc.2.2

/-- A run is cut off as one lexeme, whatever is cut off behind it. -/
theorem scan_run {run rest : List Char} {ls : List Lexeme} (hrun : IsRun run)
    (hscan : scan false rest = ls) (hnext : ∀ l ∈ ls.head?, l.holdsRun = false)
    (hhead : rest.head? ≠ some '\x7b') : scan false (run ++ rest) = .text run :: ls := by
  obtain ⟨hne, hclosed⟩ := hrun
  induction run with
  | nil => exact absurd rfl hne
  | cons c more ih =>
    obtain ⟨hc, hmore⟩ := hasOpening_cons.mp hclosed
    cases more with
    | nil =>
      have hopens : ¬Opens c rest := fun h => hhead h.2
      rw [List.singleton_append, scan_text_cons hopens, hscan]
      cases ls with
      | nil => rfl
      | cons l after =>
        have hl := hnext l rfl
        cases l <;> first | rfl | cases hl
    | cons d more =>
      rw [List.cons_append, scan_text_cons (by rwa [List.cons_append, opens_cons, ← opens_cons]),
        ih (List.cons_ne_nil d more) hmore]
      rfl

/-- The same of a word. -/
theorem scan_word {run rest : List Char} {ls : List Lexeme} (hrun : IsWord run)
    (hscan : scan true rest = ls) (hnext : ∀ l ∈ ls.head?, l.holdsRun = false)
    (hhead : rest.head? ≠ some '\x7b') : scan true (run ++ rest) = .word run :: ls := by
  obtain ⟨⟨hne, hclosed⟩, hmarks⟩ := hrun
  induction run with
  | nil => exact absurd rfl hne
  | cons c more ih =>
    obtain ⟨hc, hmore⟩ := hasOpening_cons.mp hclosed
    have hmark : c ∉ marks := hmarks c List.mem_cons_self
    cases more with
    | nil =>
      have hopens : ¬Opens c rest := fun h => hhead h.2
      rw [List.singleton_append, scan_word_cons hopens hmark, hscan]
      cases ls with
      | nil => rfl
      | cons l after =>
        have hl := hnext l rfl
        cases l <;> first | rfl | cases hl
    | cons d more =>
      have hopens : ¬Opens c (d :: more ++ rest) := by
        rwa [List.cons_append, opens_cons, ← opens_cons]
      rw [List.cons_append, scan_word_cons hopens hmark,
        ih (fun x hx => hmarks x (List.mem_cons_of_mem c hx)) (List.cons_ne_nil d more) hmore]
      rfl

/-- **A list of the right shape is what its spelling is cut into.** -/
theorem scan_of_shape {inside : Bool} {ls : List Lexeme} (h : Shape inside ls) :
    scan inside (ls.flatMap spelling) = ls := by
  induction h with
  | nil inside => cases inside <;> rfl
  | text hrun hnext hrest ih =>
    rw [List.flatMap_cons]
    exact scan_run hrun ih hnext (head_of_next hrest hnext)
  | word hrun hnext hrest ih =>
    rw [List.flatMap_cons]
    exact scan_word hrun ih hnext (head_of_next hrest hnext)
  | opening _ ih => exact congrArg (Lexeme.opening :: ·) ih
  | colon _ ih => exact congrArg (Lexeme.colon :: ·) ih
  | pipe _ ih => exact congrArg (Lexeme.pipe :: ·) ih
  | nested _ ih => exact congrArg (Lexeme.nested :: ·) ih
  | closing _ ih => exact congrArg (Lexeme.closing :: ·) ih

/-- A character joins a text from the front, if it opens no marker with it. -/
theorem Shape.consText {c : Char} {ls : List Lexeme} (h : Shape false ls)
    (hopens : ¬Opens c (ls.flatMap spelling)) : Shape false (consText c ls) := by
  have hsingle : IsRun [c] := ⟨List.cons_ne_nil c [], hasOpening_cons.mpr ⟨by simp [Opens], rfl⟩⟩
  cases h with
  | nil => exact .text hsingle (by simp) (.nil false)
  | opening hrest => exact .text hsingle (by simp [holdsRun]) (.opening hrest)
  | @text run rest hrun hnext hrest =>
    refine .text ⟨List.cons_ne_nil c run, hasOpening_cons.mpr ⟨fun hc => hopens ?_, hrun.closed⟩⟩
      hnext hrest
    obtain ⟨d, more, rfl⟩ := List.exists_cons_of_ne_nil hrun.nonempty
    exact hc

/-- The same inside a marker, if the character does not end a word. -/
theorem Shape.consWord {c : Char} {ls : List Lexeme} (h : Shape true ls)
    (hopens : ¬Opens c (ls.flatMap spelling)) (hc : c ∉ marks) : Shape true (consWord c ls) := by
  have hsingle : IsWord [c] :=
    { nonempty := List.cons_ne_nil c []
      closed := hasOpening_cons.mpr ⟨by simp [Opens], rfl⟩
      unmarked := fun d hd => by rwa [List.mem_singleton.mp hd] }
  cases h with
  | nil => exact .word hsingle (by simp) (.nil true)
  | colon hrest => exact .word hsingle (by simp [holdsRun]) (.colon hrest)
  | pipe hrest => exact .word hsingle (by simp [holdsRun]) (.pipe hrest)
  | nested hrest => exact .word hsingle (by simp [holdsRun]) (.nested hrest)
  | closing hrest => exact .word hsingle (by simp [holdsRun]) (.closing hrest)
  | @word run rest hrun hnext hrest =>
    have hclosed : ¬Opens c run := fun hrunOpens => hopens <| by
      obtain ⟨d, more, rfl⟩ := List.exists_cons_of_ne_nil hrun.nonempty
      exact hrunOpens
    exact .word
      { nonempty := List.cons_ne_nil c run
        closed := hasOpening_cons.mpr ⟨hclosed, hrun.closed⟩
        unmarked := List.forall_mem_cons.mpr ⟨hc, hrun.unmarked⟩ }
      hnext hrest

/-- **A text is cut into a list of the right shape.** -/
theorem scan_shape (inside : Bool) (cs : List Char) : Shape inside (scan inside cs) := by
  fun_induction scan inside cs with
  | case1 inside => exact .nil inside
  | case2 rest ih => exact .opening ih
  | case3 c rest hopens ih =>
    refine ih.consText fun h => ?_
    rw [scan_spelling] at h
    obtain ⟨tail, htail⟩ := exists_of_opens h
    exact hopens tail (List.cons.inj htail).1 (List.cons.inj htail).2
  | case4 rest ih => exact .nested ih
  | case5 rest ih => exact .colon ih
  | case6 rest ih => exact .pipe ih
  | case7 rest ih => exact .closing ih
  | case8 c rest hopens hcolon hpipe hclosing ih =>
    have hc : c ∉ marks := by
      simp only [marks, List.mem_cons, List.not_mem_nil, or_false, not_or]
      exact ⟨hcolon, hpipe, hclosing⟩
    refine ih.consWord (fun h => ?_) hc
    rw [scan_spelling] at h
    obtain ⟨tail, htail⟩ := exists_of_opens h
    exact hopens tail (List.cons.inj htail).1 (List.cons.inj htail).2

/-! ## 4. Faults -/

/-- Is a marker open behind a list of lexemes? -/
def endsInside : Bool → List Lexeme → Bool
  | inside, [] => inside
  | _, .opening :: rest => endsInside true rest
  | _, .closing :: rest => endsInside false rest
  | inside, _ :: rest => endsInside inside rest

/-- A closing brace closes whatever is open before it. -/
theorem endsInside_append_closing (inside : Bool) (before rest : List Lexeme) :
    endsInside inside (before ++ .closing :: rest) = endsInside false rest := by
  induction before generalizing inside with
  | nil => rfl
  | cons l before ih => cases l <;> exact ih _

theorem isSome_pending (opened : Option UInt32) (offset : Nat) (ls : List Lexeme) :
    (pending opened (place offset ls)).isSome = endsInside opened.isSome ls := by
  induction ls generalizing opened offset with
  | nil => rfl
  | cons l rest ih => cases l <;> exact ih _ _

theorem nestedColumns_eq_nil_iff (offset : Nat) (ls : List Lexeme) :
    nestedColumns (place offset ls) = [] ↔ .nested ∉ ls := by
  induction ls generalizing offset with
  | nil => simp [nestedColumns, place]
  | cons l rest ih =>
    have hrest := ih (offset + l.spelling.length)
    simp only [nestedColumns, List.map_eq_nil_iff] at hrest ⊢
    cases l <;> simp [place, hrest]

/-- **A text has no faults** exactly if no marker stands in another one or is left open. -/
theorem faults_eq_nil_iff (path : DocPath) (offset : Nat) (ls : List Lexeme) :
    faults path (place offset ls) = [] ↔ .nested ∉ ls ∧ endsInside false ls = false := by
  have hpending := isSome_pending none offset ls
  rw [Option.isSome_none] at hpending
  rw [faults, List.append_eq_nil_iff, List.map_eq_nil_iff, List.map_eq_nil_iff,
    nestedColumns_eq_nil_iff, ← hpending]
  cases pending none (place offset ls) <;> simp

/-! ## 5. Closed parts -/

/-- What stands in a marker: words, colons and pipes. -/
structure IsBody (body : List Lexeme) : Prop where
  shape : Shape true body
  flat : ∀ l ∈ body, l ≠ .closing ∧ l ≠ .nested

/-- A part of a text: a run outside markers, or a marker with what stands in it. -/
inductive Part where
  | text (run : List Char)
  | marker (body : List Lexeme)

/-- The lexemes of a part. -/
def Part.lexemes : Part → List Lexeme
  | .text run => [.text run]
  | .marker body => .opening :: (body ++ [.closing])

/-- Is a part a run of text? -/
def Part.isText : Part → Bool
  | .text _ => true
  | .marker _ => false

/-- The parts of a text without faults. -/
inductive Closed : List Part → Prop where
  | nil : Closed []
  | text {run : List Char} {rest : List Part} (hrun : IsRun run)
      (hnext : ∀ p ∈ rest.head?, p.isText = false) (hrest : Closed rest) :
      Closed (.text run :: rest)
  | marker {body : List Lexeme} {rest : List Part} (hbody : IsBody body) (hrest : Closed rest) :
      Closed (.marker body :: rest)

theorem IsBody.tail {l : Lexeme} {body : List Lexeme} (h : IsBody (l :: body)) : IsBody body where
  shape := by
    obtain ⟨hshape, hflat⟩ := h
    cases hshape with
    | word _ _ hrest => exact hrest
    | colon hrest => exact hrest
    | pipe hrest => exact hrest
    | nested hrest => exact hrest
    | closing => exact absurd rfl (hflat _ List.mem_cons_self).1
  flat x hx := h.flat x (List.mem_cons_of_mem l hx)

/-- What stands in a marker goes in front of the lexemes behind it, if no word meets a word. -/
theorem IsBody.shape_append {body rest : List Lexeme} (h : IsBody body) (hrest : Shape true rest)
    (hbehind : ∀ l ∈ rest.head?, l.holdsRun = false) : Shape true (body ++ rest) := by
  induction body with
  | nil => exact hrest
  | cons l body ih =>
    have hmore := ih h.tail
    obtain ⟨hshape, hflat⟩ := h
    rw [List.cons_append]
    cases hshape with
    | word hrun hnext =>
      refine .word hrun ?_ hmore
      cases body with
      | nil => exact hbehind
      | cons => exact hnext
    | colon => exact .colon hmore
    | pipe => exact .pipe hmore
    | nested => exact absurd rfl (hflat _ List.mem_cons_self).2
    | closing => exact absurd rfl (hflat _ List.mem_cons_self).1

/-- Only a text starts with a run. -/
theorem holdsRun_head_of_parts {parts : List Part} (h : ∀ p ∈ parts.head?, p.isText = false) :
    ∀ l ∈ (parts.flatMap Part.lexemes).head?, l.holdsRun = false := by
  cases parts with
  | nil => simp
  | cons p rest =>
    cases p with
    | text run => exact absurd (h _ rfl) (by simp [Part.isText])
    | marker body => simp [Part.lexemes, holdsRun]

theorem isText_head_of_lexemes {parts : List Part}
    (h : ∀ l ∈ (parts.flatMap Part.lexemes).head?, l.holdsRun = false) :
    ∀ p ∈ parts.head?, p.isText = false := by
  cases parts with
  | nil => simp
  | cons p rest =>
    cases p with
    | text run => exact absurd (h _ rfl) (by simp [holdsRun])
    | marker body => simp [Part.isText]

theorem Closed.shape {parts : List Part} (h : Closed parts) :
    Shape false (parts.flatMap Part.lexemes) := by
  induction h with
  | nil => exact .nil false
  | text hrun hnext _ ih => exact .text hrun (holdsRun_head_of_parts hnext) ih
  | marker hbody _ ih =>
    rw [List.flatMap_cons, Part.lexemes, List.cons_append, List.append_assoc]
    exact .opening (hbody.shape_append (.closing ih) (by simp [holdsRun]))

theorem Closed.not_mem_nested {parts : List Part} (h : Closed parts) :
    .nested ∉ parts.flatMap Part.lexemes := by
  induction h with
  | nil => simp
  | text _ _ _ ih => simpa [Part.lexemes] using ih
  | marker hbody _ ih =>
    have hnested : Lexeme.nested ∉ _ := fun hmem => (hbody.flat _ hmem).2 rfl
    simpa [Part.lexemes, hnested] using ih

theorem Closed.endsInside {parts : List Part} (h : Closed parts) :
    endsInside false (parts.flatMap Part.lexemes) = false := by
  induction h with
  | nil => rfl
  | text _ _ _ ih => exact ih
  | @marker body rest _ _ ih =>
    have hflat : (Part.marker body :: rest).flatMap Part.lexemes =
        (.opening :: body) ++ .closing :: rest.flatMap Part.lexemes := by
      simp [Part.lexemes]
    rw [hflat, endsInside_append_closing]
    exact ih

/-- The lexemes of closed parts; from inside a marker, what is left of it and the parts behind. -/
def Splits : Bool → List Lexeme → Prop
  | false, ls => ∃ parts, Closed parts ∧ ls = parts.flatMap Part.lexemes
  | true, ls => ∃ body parts, IsBody body ∧ Closed parts ∧
      ls = body ++ .closing :: parts.flatMap Part.lexemes

/-- Punctuation or a word in front of what is left of a marker. -/
theorem Splits.cons {l : Lexeme} {rest : List Lexeme} (h : Splits true rest)
    (hl : l ≠ .closing ∧ l ≠ .nested)
    (hshape : ∀ body, Shape true body → (∀ x ∈ body.head?, x ∈ rest.head?) →
      Shape true (l :: body)) : Splits true (l :: rest) := by
  obtain ⟨body, parts, hbody, hparts, rfl⟩ := h
  refine ⟨l :: body, parts, ⟨hshape body hbody.shape ?_, ?_⟩, hparts, rfl⟩
  · cases body with
    | nil => simp
    | cons => exact fun x hx => hx
  · exact List.forall_mem_cons.mpr ⟨hl, hbody.flat⟩

/-- Lexemes of the right shape without faults are those of closed parts. -/
theorem Shape.splits {inside : Bool} {ls : List Lexeme} (h : Shape inside ls)
    (hnested : .nested ∉ ls) (hends : Lexeme.endsInside inside ls = false) : Splits inside ls := by
  induction h with
  | nil inside =>
    cases inside with
    | false => exact ⟨[], .nil, rfl⟩
    | true => cases hends
  | @text run rest hrun hnext _ ih =>
    obtain ⟨parts, hparts, rfl⟩ := ih (fun hmem => hnested (List.mem_cons_of_mem _ hmem)) hends
    exact ⟨.text run :: parts, .text hrun (isText_head_of_lexemes hnext) hparts, rfl⟩
  | opening _ ih =>
    obtain ⟨body, parts, hbody, hparts, rfl⟩ :=
      ih (fun hmem => hnested (List.mem_cons_of_mem _ hmem)) hends
    exact ⟨.marker body :: parts, .marker hbody hparts, by simp [Part.lexemes]⟩
  | word hrun hnext _ ih =>
    have hrest := ih (fun hmem => hnested (List.mem_cons_of_mem _ hmem)) hends
    refine hrest.cons (by simp) fun body hbody hhead => .word hrun (fun x hx => ?_) hbody
    exact hnext x (hhead x hx)
  | colon _ ih =>
    have hrest := ih (fun hmem => hnested (List.mem_cons_of_mem _ hmem)) hends
    exact hrest.cons (by simp) fun _ hbody _ => .colon hbody
  | pipe _ ih =>
    have hrest := ih (fun hmem => hnested (List.mem_cons_of_mem _ hmem)) hends
    exact hrest.cons (by simp) fun _ hbody _ => .pipe hbody
  | nested => exact absurd List.mem_cons_self hnested
  | closing _ ih =>
    obtain ⟨parts, hparts, rfl⟩ := ih (fun hmem => hnested (List.mem_cons_of_mem _ hmem)) hends
    exact ⟨[], parts, ⟨.nil true, by simp⟩, hparts, rfl⟩

/-- **A text has no faults exactly if it is made of closed parts.** -/
theorem exists_parts_iff (path : DocPath) (cs : List Char) :
    faults path (place 0 (scan false cs)) = [] ↔
      ∃ parts, Closed parts ∧ scan false cs = parts.flatMap Part.lexemes := by
  rw [faults_eq_nil_iff]
  constructor
  · intro ⟨hnested, hends⟩
    exact (scan_shape false cs).splits hnested hends
  · intro ⟨parts, hparts, hscan⟩
    rw [hscan]
    exact ⟨hparts.not_mem_nested, hparts.endsInside⟩

end Lexeme

end Stencil
