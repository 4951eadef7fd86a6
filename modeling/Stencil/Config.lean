import Stencil.Document.Parse
import Stencil.Json.Decode
import Stencil.Json.Reader

/-!
# Settings

This file fixes the settings of an engine: the limits of parsing and the limit of gas. Settings are
stored as an object of their three fields. Fields can be missing, others are refused; an array of
the first fields is accepted, too.
-/

namespace Stencil

/-- The settings of an engine. -/
structure Config where
  maxErrors : Nat
  maxDepth : Nat
  gasLimit : Option Nat
  deriving DecidableEq, Repr

namespace Config

/-- The usual settings: no limit of gas. -/
def default : Config :=
  ⟨Report.defaultLimit, ParseOptions.defaultDepth, none⟩

/-- The limits of parsing. -/
def parseOptions (c : Config) : ParseOptions :=
  ⟨c.maxErrors, c.maxDepth⟩

/-- The fields of stored settings. -/
def shape : Json.Shape :=
  ⟨["max_errors", "max_depth", "gas_limit"], false, true⟩

/-- The tree of settings. -/
def toJson (c : Config) : Json :=
  .object
    [("max_errors", .number (.int c.maxErrors)), ("max_depth", .number (.int c.maxDepth)),
     ("gas_limit", match c.gasLimit with
       | some limit => .number (.int limit)
       | none => .null)]

/-- The settings of a tree. -/
def ofJson? (tree : Json) : Option Config := do
  let fields ← tree.record? shape
  let maxErrors ← Json.withDefault? Json.nat? default.maxErrors fields "max_errors"
  let maxDepth ← Json.withDefault? Json.nat? default.maxDepth fields "max_depth"
  let gasLimit ← Json.optional? Json.nat? fields "gas_limit"
  return ⟨maxErrors, maxDepth, gasLimit⟩

/-- The settings of a text. -/
def parse? (text : String) : Option Config :=
  (Json.readRaw? text).bind ofJson?

end Config

end Stencil
