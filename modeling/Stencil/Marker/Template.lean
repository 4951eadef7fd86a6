import Stencil.Expr
import Stencil.Marker.Token

/-!
# Templates

A template is a text in which markers stand for values:

    marker  :=  opening key ( "|" filter )* closing
    key     :=  namespace ":" name
    filter  :=  name ( ":" argument )*

This file fixes the template a text denotes (`Template.read`): literal text and the call of each
marker, in order; or a report of everything that is wrong. A text without an opening is a plain
text, whatever braces, colons and pipes it holds.
-/

namespace Stencil.Template

/-! ## 1. Runs of tokens -/

/-- A run of tokens: a literal text, or what stands in a marker that opens at a column. -/
inductive Run where
  | literal (s : String)
  | marker (column : UInt32) (body : List Token)
  deriving DecidableEq, Repr

/-- The runs of a list of tokens. Inside a marker, the first argument holds its column and its
    tokens so far, the last one first. -/
def runs : Option (UInt32 × List Token) → List Token → List Run
  | none, [] => []
  | some (column, body), [] => [.marker column body.reverse]
  | none, token :: rest =>
    match token.kind with
    | .text s => .literal s :: runs none rest
    | .opening => runs (some (token.column, [])) rest
    | .endOfText => []
    | _ => runs none rest
  | some (column, body), token :: rest =>
    match token.kind with
    | .closing => .marker column body.reverse :: runs none rest
    | _ => runs (some (column, token :: body)) rest

/-! ## 2. Parts of a marker -/

/-- The words of a list of tokens, joined. -/
def wordsOf (tokens : List Token) : String :=
  String.join (tokens.map fun token =>
    match token.kind with
    | .word s => s
    | _ => "")

/-- What a list of words and colons looks like in the text. -/
def written (tokens : List Token) : String :=
  String.join (tokens.map fun token =>
    match token.kind with
    | .word s => s
    | .colon => ":"
    | _ => "")

/-- The parts between the colons, without blanks at their ends. -/
def colonParts (tokens : List Token) : List String :=
  (tokens.splitOnP fun token => token.kind == .colon).map fun part =>
    Text.trim (wordsOf part)

/-- The parts of a marker between its pipes. -/
def stages (body : List Token) : List (List Token) :=
  body.splitOnP fun token => token.kind == .pipe

/-- The column of a stage: that of its first token, or of the marker if it is empty. -/
def columnOf (opened : UInt32) : List Token → UInt32
  | [] => opened
  | token :: _ => token.column

/-! ## 3. Calls -/

/-- The key a stage denotes, in a marker that opens at a column. -/
def key (path : DocPath) (opened : UInt32) (stage : List Token) : Except Diagnostic Key :=
  let missing := (Fault.missingNamespace (Text.trim (written stage))).atColumn path
    (columnOf opened stage)
  match colonParts stage with
  | [only] => .error (if only = "" then Fault.emptyMarker.atColumn path opened else missing)
  | space :: rest =>
    match Key.parse? (space ++ ":" ++ ":".intercalate rest) with
    | some k => .ok k
    | none => .error missing
  | [] => .error missing

/-- The filter a stage denotes. -/
def filter (path : DocPath) (opened : UInt32) (stage : List Token) :
    Except Diagnostic FilterCall :=
  match colonParts stage with
  | [] => .error (Fault.emptyFilterName.atColumn path (columnOf opened stage))
  | name :: args =>
    if name = "" then .error (Fault.emptyFilterName.atColumn path (columnOf opened stage))
    else .ok ⟨name, args⟩

/-- The filters of the stages, up to the first stage that denotes none. -/
def filters (path : DocPath) (opened : UInt32) :
    List (List Token) → Except Diagnostic (List FilterCall)
  | [] => .ok []
  | stage :: rest =>
    match filter path opened stage with
    | .error d => .error d
    | .ok f =>
      match filters path opened rest with
      | .error d => .error d
      | .ok fs => .ok (f :: fs)

/-- The call a marker denotes: its first stage is the key, the others are filters. -/
def call (path : DocPath) (opened : UInt32) (body : List Token) : Except Diagnostic Call :=
  match stages body with
  | [] => .error (Fault.emptyMarker.atColumn path opened)
  | first :: rest =>
    match key path opened first with
    | .error d => .error d
    | .ok k =>
      match filters path opened rest with
      | .error d => .error d
      | .ok fs => .ok ⟨k, fs⟩

/-! ## 4. Templates -/

/-- The part of the template that a run is. -/
def piece (path : DocPath) : Run → Except Diagnostic Piece
  | .literal s => .ok (.text s)
  | .marker column body => (call path column body).map .call

/-- The parts of a template, and what is wrong with the runs that are none. -/
def pieces (path : DocPath) : List Run → List Diagnostic × List Piece
  | [] => ([], [])
  | run :: rest =>
    let (wrong, right) := pieces path rest
    match piece path run with
    | .error d => (d :: wrong, right)
    | .ok p => (wrong, p :: right)

/-- Is there a dollar sign with an opening brace behind it? -/
def hasOpening : List Char → Bool
  | '$' :: '\x7b' :: _ => true
  | _ :: rest => hasOpening rest
  | [] => false

/-- The template that the text at a path denotes. -/
def read (text : String) (path : DocPath) : Except Report Expr :=
  if hasOpening text.toList then
    let lexed := Lexed.ofText text path
    if lexed.report.hasErrors then .error lexed.report
    else
      match pieces path (runs none lexed.tokens) with
      | ([], right) => .ok (.interpolated right)
      | (wrong, _) => .error (Report.ofErrors wrong)
  else .ok (.text text)

end Stencil.Template
