import Stencil.Marker.Lexeme

/-!
# Tokens of a text with markers

A text is handed on as tokens with columns, with a token for its end. This file fixes the tokens
(`Token.Kind`), how each is named (`Token.Kind.description`) and the tokens of a text with what is
wrong in it (`Lexed.ofText`).
-/

namespace Stencil

namespace Token

/-- What a token is. -/
inductive Kind where
  | text (s : String)
  | opening
  | word (s : String)
  | colon
  | pipe
  | closing
  | endOfText
  deriving DecidableEq, Repr

/-- The name of a token. -/
def Kind.description : Kind → String
  | .text s => "text \"" ++ s ++ "\""
  | .opening => "$\x7b"
  | .word s => "'" ++ s ++ "'"
  | .colon => ":"
  | .pipe => "|"
  | .closing => "\x7d"
  | .endOfText => "end of text"

/-- The token of a lexeme; an opening inside a marker has none. -/
def Kind.ofLexeme? : Lexeme → Option Kind
  | .text run => some (.text (String.ofList run))
  | .opening => some .opening
  | .word run => some (.word (String.ofList run))
  | .colon => some .colon
  | .pipe => some .pipe
  | .closing => some .closing
  | .nested => none

end Token

/-- A token at a column. -/
structure Token where
  kind : Token.Kind
  column : UInt32
  deriving DecidableEq, Repr

/-- The token of a lexeme at its place. -/
def Token.ofPlaced? (p : Lexeme.Placed) : Option Token :=
  (Token.Kind.ofLexeme? p.lexeme).map fun kind => ⟨kind, p.column⟩

/-- The tokens of a text, and what is wrong with it. -/
structure Lexed where
  tokens : List Token
  report : Report

/-- The tokens of the text at a path. The report stores errors up to the usual limit. -/
def Lexed.ofText (text : String) (path : DocPath) : Lexed :=
  let cs := text.toList
  let placed := Lexeme.place 0 (Lexeme.scan false cs)
  { tokens := placed.filterMap Token.ofPlaced? ++ [⟨.endOfText, Lexeme.columnAt cs.length⟩]
    report := Report.empty.addErrors (Lexeme.faults path placed) }

end Stencil
