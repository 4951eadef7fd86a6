import Stencil.Report

/-!
# Parsing with a report

A parse either yields a result or adds to the report what is wrong, and the parts of a document are
parsed whether or not the parts before them failed. This file fixes

* what a parse is (`Parse`): from the options, the depth of the node and the report so far to a
  result and the report after it;
* how parses are put together: `pure`, `refuse`, `map`, and `both`, which runs the second parse
  also if the first has failed;
* the one place where a parse is cut short (`nested`): no node is entered when the report is full
  or the document is too deep, and the excess of depth is reported once.
-/

namespace Stencil

/-- The limits of a parse. -/
structure ParseOptions where
  maxErrors : Nat
  maxDepth : Nat
  deriving DecidableEq, Repr

/-- The number of levels a document can have if nothing else is asked for. -/
def ParseOptions.defaultDepth : Nat := 64

/-- The usual limits. -/
def ParseOptions.default : ParseOptions :=
  ⟨Report.defaultLimit, ParseOptions.defaultDepth⟩

/-- What a parse has found so far. -/
structure Findings where
  report : Report
  /-- Has it been reported that the document is too deep? -/
  tooDeep : Bool
  deriving DecidableEq, Repr

/-- A parse of a part of a document, under the options, at a depth, after earlier findings. -/
def Parse (α : Type) : Type :=
  ParseOptions → Nat → Findings → Option α × Findings

namespace Parse

variable {α β γ : Type}

/-! ## 1. Results and faults -/

/-- The parse that finds nothing and has a result. -/
def pure (a : α) : Parse α :=
  fun _ _ found => (some a, found)

/-- The parse that fails with what a report holds. -/
def refuseAll (r : Report) : Parse α :=
  fun _ _ found => (none, { found with report := found.report.merge r })

/-- The parse that fails with the errors of a list. -/
def refuseEach (ds : List Diagnostic) : Parse α :=
  fun _ _ found => (none, { found with report := found.report.addErrors ds })

/-- The parse that fails with one error. -/
def refuse (d : Diagnostic) : Parse α :=
  refuseEach [d]

/-! ## 2. Putting parses together -/

/-- The parse with another result. -/
def map (f : α → β) (p : Parse α) : Parse β :=
  fun options depth found =>
    let (result, after) := p options depth found
    (result.map f, after)

/-- Two parses, one after the other. Both are run; there is a result if both have one. -/
def both (p : Parse α) (q : Parse β) : Parse (α × β) :=
  fun options depth found =>
    let (first, between) := p options depth found
    let (second, after) := q options depth between
    (first.bind fun a => second.map fun b => (a, b), after)

/-- Two parses of which only the second has a result worth keeping. -/
def andThen (p : Parse α) (q : Parse β) : Parse β :=
  map Prod.snd (both p q)

/-- A parse, if there is one. -/
def optional : Option (Parse α) → Parse (Option α)
  | none => pure none
  | some p => map some p

/-- The parse that reports errors and fails if there are any. -/
def complain : List Diagnostic → Parse Unit
  | [] => pure ()
  | ds => refuseEach ds

/-! ## 3. Depth -/

/-- The parse of the node at a path, one level deeper. -/
def nested (path : DocPath) (p : Parse α) : Parse α :=
  fun options depth found =>
    if found.report.isFull then (none, found)
    else if options.maxDepth < depth + 1 then
      if found.tooDeep then (none, found)
      else
        let fault := (Fault.tooDeep options.maxDepth).on path
        (none, ⟨found.report.addError fault, true⟩)
    else p options (depth + 1) found

end Parse

end Stencil
