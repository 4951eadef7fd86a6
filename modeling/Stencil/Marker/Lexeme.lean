import Stencil.Report

/-!
# Lexemes of a text with markers

A marker starts with a dollar sign and a brace and ends with the closing brace. This file fixes how
a text is cut (`Lexeme.scan`): outside a marker into runs of text and openings; inside one into
colons, pipes, words and the closing brace. A second opening inside a marker is a lexeme of its
own, `nested`, which is reported and else passed over.

The lexemes tile the text (`Lexeme.scan_spelling`), so the column of each is one more than the
width of all lexemes before it (`Lexeme.place`).
-/

namespace Stencil

/-- A part of a text with markers. -/
inductive Lexeme where
  | text (run : List Char)
  | opening
  | word (run : List Char)
  | colon
  | pipe
  | closing
  | nested
  deriving DecidableEq, Repr

namespace Lexeme

/-! ## 1. Cutting a text -/

/-- A character of text, joined with the run that follows it. -/
def consText (c : Char) : List Lexeme → List Lexeme
  | .text run :: rest => .text (c :: run) :: rest
  | ls => .text [c] :: ls

/-- A character of a word, joined with the run that follows it. -/
def consWord (c : Char) : List Lexeme → List Lexeme
  | .word run :: rest => .word (c :: run) :: rest
  | ls => .word [c] :: ls

/-- The lexemes of a text that starts outside a marker (`false`) or inside one (`true`). -/
def scan : Bool → List Char → List Lexeme
  | _, [] => []
  | false, '$' :: '\x7b' :: rest => .opening :: scan true rest
  | false, c :: rest => consText c (scan false rest)
  | true, '$' :: '\x7b' :: rest => .nested :: scan true rest
  | true, ':' :: rest => .colon :: scan true rest
  | true, '|' :: rest => .pipe :: scan true rest
  | true, '\x7d' :: rest => .closing :: scan false rest
  | true, c :: rest => consWord c (scan true rest)

/-- How a lexeme is written. -/
def spelling : Lexeme → List Char
  | .text run => run
  | .opening => ['$', '\x7b']
  | .word run => run
  | .colon => [':']
  | .pipe => ['|']
  | .closing => ['\x7d']
  | .nested => ['$', '\x7b']

@[simp] theorem spelling_consText (c : Char) (ls : List Lexeme) :
    (consText c ls).flatMap spelling = c :: ls.flatMap spelling := by
  unfold consText
  split <;> simp [spelling]

@[simp] theorem spelling_consWord (c : Char) (ls : List Lexeme) :
    (consWord c ls).flatMap spelling = c :: ls.flatMap spelling := by
  unfold consWord
  split <;> simp [spelling]

/-- **The lexemes tile the text**: their spellings, one after the other, are the text. -/
theorem scan_spelling (inside : Bool) (cs : List Char) :
    (scan inside cs).flatMap spelling = cs := by
  fun_induction scan inside cs <;> simp_all [spelling]

/-! ## 2. Columns -/

/-- The column of the character at an offset, counted from one. -/
def columnAt (offset : Nat) : UInt32 :=
  UInt32.ofNat (min (offset + 1) 4294967295)

/-- A lexeme with its column. -/
structure Placed where
  lexeme : Lexeme
  column : UInt32
  deriving DecidableEq, Repr

/-- Lexemes with their columns, the first one at an offset. -/
def place (offset : Nat) : List Lexeme → List Placed
  | [] => []
  | l :: rest => ⟨l, columnAt offset⟩ :: place (offset + l.spelling.length) rest

/-! ## 3. Faults -/

/-- The column of the last opening that has not been closed. -/
def pending (opened : Option UInt32) : List Placed → Option UInt32
  | [] => opened
  | p :: rest =>
    match p.lexeme with
    | .opening => pending (some p.column) rest
    | .closing => pending none rest
    | _ => pending opened rest

/-- The columns of the openings inside markers. -/
def nestedColumns (ls : List Placed) : List UInt32 :=
  (ls.filter fun p => p.lexeme = .nested).map Placed.column

/-- What is wrong with the lexemes of the text at a path: every opening inside a marker, and last
    a marker that is still open at the end. -/
def faults (path : DocPath) (ls : List Placed) : List Diagnostic :=
  (nestedColumns ls).map (Fault.nestedMarker.atColumn path) ++
    (pending none ls).toList.map (Fault.unclosedMarker.atColumn path)

end Lexeme

end Stencil
