import Stencil.Document.Condition
import Stencil.Document.Outline

/-!
# Parsing documents

This file fixes the expression of an outlined document. Of a block,

1. the body is what `@when` selects, else what `@value` holds, else the entries;
2. `@repeat` repeats the body;
3. `@if` guards the result, a whole repetition included.

`Outline.parse` parses a node, `Block.parse` an object up to its guard, which a clause keeps apart
from its result. `Parsed.ofDocument` parses a whole document: there is an expression exactly if
nothing was reported.
-/

namespace Stencil

/-! ## 1. Putting expressions together -/

/-- The expression under a guard. -/
def Expr.guarded : Option Expr × Expr → Expr
  | (none, body) => body
  | (some predicate, body) => .conditional [.mk (some predicate) body]

/-- What is wrong with an object that has `@when`: it takes neither `@value` nor entries. -/
def Block.clashes (path : DocPath) (hasValue hasEntries : Bool) : List Diagnostic :=
  (if hasValue then [Fault.whenBesideValue.on path] else []) ++
    (if hasEntries then [Fault.whenBesideFields.on path] else [])

/-- What is wrong with unknown directives. -/
def Block.strangers (path : DocPath) (unknown : List String) : List Diagnostic :=
  unknown.map fun name => (Fault.unknownDirective name).on (path.field name)

/-- The body under its repetition; the body is parsed before the source. -/
def Parse.repeated (body : Parse Expr) : Option (Parse Expr) → Parse Expr
  | none => body
  | some source => (body.both source).map fun (b, s) => .repetition s b

/-! ## 2. Parsing outlines -/

mutual

/-- The expression of the node at a path. -/
def Outline.parse (path : DocPath) : Outline → Parse Expr
  | .null => .nested path (.pure (.const .null))
  | .bool b => .nested path (.pure (.const (.bool b)))
  | .number n => .nested path (.pure (.const (.number n)))
  | .text s => .nested path (Parse.text s path)
  | .sequence items => .nested path ((parseItems path 0 items).map .list)
  | .object block => .nested path ((Block.parse path block).map Expr.guarded)

/-- The expressions of the elements of a sequence, the first of which is at an index. -/
def parseItems (path : DocPath) : Nat → List Outline → Parse (List Expr)
  | _, [] => .pure []
  | i, item :: rest =>
    ((Outline.parse (path.index i) item).both (parseItems path (i + 1) rest)).map
      fun (first, others) => first :: others

/-- The guard and the guarded expression of the object at a path. -/
def Block.parse (path : DocPath) : Block → Parse (Option Expr × Expr)
  | .mk unknown guard clauses value source entries =>
    match unknown with
    | [] =>
      Parse.both
        (Parse.optional (guard.map (Condition.predicate (path.field Directive.guard))))
        (Parse.repeated
          (match clauses with
            | some node =>
              Parse.andThen (Parse.complain (Block.clashes path value.isSome !entries.isEmpty))
                (parseClauses (path.field Directive.clauses) node)
            | none =>
              match value with
              | some node => Outline.parse (path.field Directive.value) node
              | none => (parseEntries path entries).map .tree)
          (match source with
            | some node => some (Outline.parse (path.field Directive.source) node)
            | none => none))
    | _ => .refuseEach (Block.strangers path unknown)

/-- The entries of an object. -/
def parseEntries (path : DocPath) : List BlockEntry → Parse (List Entry)
  | [] => .pure []
  | .field name node :: rest =>
    ((Outline.parse (path.field name) node).both (parseEntries path rest)).map
      fun (first, others) => .field name first :: others
  | .container node :: rest =>
    ((parseBranches (path.field Directive.container) node).both (parseEntries path rest)).map
      fun (branches, others) => branches.map .merge ++ others

/-- The conditional that a sequence of clauses stands for. -/
def parseClauses (path : DocPath) : Outline → Parse Expr
  | .sequence items => (parseClauseItems path 0 items).map .conditional
  | .null => .refuse ((Fault.whenNotSequence .null).on path)
  | .bool _ => .refuse ((Fault.whenNotSequence .boolean).on path)
  | .number _ => .refuse ((Fault.whenNotSequence .number).on path)
  | .text _ => .refuse ((Fault.whenNotSequence .text).on path)
  | .object _ => .refuse ((Fault.whenNotSequence .object).on path)

/-- The clauses of a sequence, the first of which is at an index. -/
def parseClauseItems (path : DocPath) : Nat → List Outline → Parse (List Clause)
  | _, [] => .pure []
  | i, .object block :: rest =>
    ((Parse.nested (path.index i) (Block.parse (path.index i) block)).both
      (parseClauseItems path (i + 1) rest)).map
        fun ((predicate, result), others) => .mk predicate result :: others
  | i, item :: rest =>
    ((Parse.refuse ((Fault.clauseNotObject item.kind).on (path.index i)) : Parse Unit)).andThen
      (parseClauseItems path (i + 1) rest)

/-- The branches that a container stands for. -/
def parseBranches (path : DocPath) : Outline → Parse (List Expr)
  | .object block =>
    (Parse.nested path ((Block.parse path block).map Expr.guarded)).map fun branch => [branch]
  | .sequence items => parseBranchItems path 0 items
  | .null => .refuse ((Fault.containerMalformed .null).on path)
  | .bool _ => .refuse ((Fault.containerMalformed .boolean).on path)
  | .number _ => .refuse ((Fault.containerMalformed .number).on path)
  | .text _ => .refuse ((Fault.containerMalformed .text).on path)

/-- The branches of a sequence, the first of which is at an index. -/
def parseBranchItems (path : DocPath) : Nat → List Outline → Parse (List Expr)
  | _, [] => .pure []
  | i, .object block :: rest =>
    ((Parse.nested (path.index i) ((Block.parse (path.index i) block).map Expr.guarded)).both
      (parseBranchItems path (i + 1) rest)).map
        fun (first, others) => first :: others
  | i, item :: rest =>
    ((Parse.refuse ((Fault.branchNotObject item.kind).on (path.index i)) : Parse Unit)).andThen
      (parseBranchItems path (i + 1) rest)

end

/-! ## 3. Whole documents -/

/-- The outcome of a parse: the expression, if nothing is wrong, and the report. -/
structure Parsed where
  expr : Option Expr
  report : Report

namespace Parsed

/-- The outcome of parsing a document. -/
def ofDocument (options : ParseOptions) (document : Json) : Parsed :=
  let start : Findings := ⟨Report.withLimit options.maxErrors, false⟩
  let (result, found) := Outline.parse .root (Outline.ofJson document) options 0 start
  ⟨if found.report.hasErrors then none else result, found.report⟩

/-- The expression, or the report of what is wrong. -/
def toExcept (p : Parsed) : Except Report Expr :=
  match p.expr with
  | some e => if p.report.hasErrors then .error p.report else .ok e
  | none => .error p.report

end Parsed

end Stencil
