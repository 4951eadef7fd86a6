import Stencil.Filter.Comparison
import Stencil.Filter.Logic
import Stencil.Filter.Number
import Stencil.Filter.Text

/-!
# The standard filters

The registry that every engine starts with. Bare names mean, in case of doubt, the family that
comes first here.
-/

namespace Stencil.Registry

/-- The registry of the standard filters. -/
def standard : Registry :=
  (((empty.registerAll "text" Filter.Text.family).registerAll "number"
    Filter.Number.family).registerAll "cond" Filter.Comparison.family).registerAll "logic"
      Filter.Logic.family

end Stencil.Registry
