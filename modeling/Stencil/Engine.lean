import Stencil.Config
import Stencil.Document.Parser
import Stencil.Evaluation

/-!
# Engines

An engine has settings, a resolver and a registry. This file fixes what it does with a document:
`Engine.parseText` reads and parses its text, `Engine.evaluate` evaluates the expression, and
`Engine.render` does both and gives the value as a JSON tree. A `Failure` says at which stage a
document failed.
-/

namespace Stencil

/-- Why a document could not be rendered. -/
inductive Failure where
  /-- The text is no JSON. -/
  | decode
  /-- The settings are none. -/
  | config
  /-- The document could not be parsed. -/
  | parse (report : Report)
  /-- The document could not be evaluated. -/
  | evaluation (e : EvalError)

namespace Failure

/-- The code of a failure: that of the first error reported. -/
def code? : Failure → Option ErrorCode
  | .decode => none
  | .config => none
  | .parse report => report.first?.map Diagnostic.code
  | .evaluation e => some e.code

/-- The message of a failure. -/
def message : Failure → String
  | .decode => "decode error"
  | .config => "invalid config"
  | .parse report => "parse failed: " ++ report.text
  | .evaluation e => e.message

end Failure

/-- Settings, keys and filters. -/
structure Engine where
  config : Config
  keys : Resolver
  filters : Registry

namespace Engine

/-- The engine with the standard keys and filters. -/
def ofConfig (config : Config) : Engine :=
  ⟨config, Resolver.standard, Registry.standard⟩

/-- The engine whose keys are asked only after those of a resolver. -/
def withKeys (engine : Engine) (resolver : Resolver) : Engine :=
  { engine with keys := resolver.compose engine.keys }

/-- The engine with one more filter. -/
def withFilter (engine : Engine) (space name : String) (filter : Filter) : Engine :=
  { engine with filters := engine.filters.register space name filter }

/-- The expression of a document. -/
def parse (engine : Engine) (document : Json) : Except Report Expr :=
  (Parsed.ofDocument engine.config.parseOptions document).toExcept

/-- The expression of the text of a document. -/
def parseText (engine : Engine) (text : String) : Except Failure Expr :=
  match Json.read? text with
  | none => .error .decode
  | some document =>
    match engine.parse document with
    | .error report => .error (.parse report)
    | .ok e => .ok e

/-- The value of an expression. -/
def evaluate (engine : Engine) (e : Expr) (context : Context) : Outcome Value :=
  (Env.evaluate ⟨engine.keys, engine.filters⟩ engine.config.gasLimit e context).1

/-- The value of the text of a document, as a JSON tree. -/
def render (engine : Engine) (text : String) (context : Context) : Except Failure Json :=
  match engine.parseText text with
  | .error failure => .error failure
  | .ok e =>
    match engine.evaluate e context with
    | .error error => .error (.evaluation error)
    | .ok v => .ok v.toJson

end Engine

end Stencil
