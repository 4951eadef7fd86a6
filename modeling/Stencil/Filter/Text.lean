import Stencil.Filter.Operand

/-!
# Text filters

The filters of the namespace `text`. All of them take any scalar, as text, and refuse collections;
`default` alone takes everything. Arguments are cut at colons, so `append`, `prepend` and `default`
join theirs with colons again.
-/

namespace Stencil.Filter.Text

/-- The filter that changes the text of a scalar. -/
def mapText (name : String) (f : String → String) : Filter :=
  fun v _ _ => (scalarText name v).map fun s => .text (f s)

/-- The text in upper case. -/
def upperCase : Filter := mapText "upperCase" Stencil.Text.upper

/-- The text in lower case. -/
def lowerCase : Filter := mapText "lowerCase" Stencil.Text.lower

/-- The text with a capital in front. -/
def capitalize : Filter := mapText "capitalize" Stencil.Text.capitalize

/-- The text without blanks at its ends. -/
def trim : Filter := mapText "trim" Stencil.Text.trim

/-- The text with the arguments behind it. -/
def append : Filter :=
  fun v args _ => (scalarText "append" v).map fun s => .text (s ++ ":".intercalate args)

/-- The text with the arguments in front of it. -/
def prepend : Filter :=
  fun v args _ => (scalarText "prepend" v).map fun s => .text (":".intercalate args ++ s)

/-- The text with the first argument exchanged for the second, or taken out if there is none. -/
def replace : Filter :=
  fun v args _ =>
    match scalarText "replace" v with
    | .error e => .error e
    | .ok s =>
      match argument "replace" args 0 with
      | .error e => .error e
      | .ok old =>
        if old.isEmpty then .ok (.text s)
        else .ok (.text (Stencil.Text.replace old ((args[1]?).getD "") s))

/-- The arguments in the place of null and of the empty text. -/
def orDefault : Filter :=
  fun v args _ =>
    match v with
    | .null => .ok (.text (":".intercalate args))
    | .text s => .ok (if s.isEmpty then .text (":".intercalate args) else v)
    | _ => .ok v

/-- The text filters with their names. -/
def family : List (String × Filter) :=
  [("upperCase", upperCase), ("lowerCase", lowerCase), ("capitalize", capitalize), ("trim", trim),
   ("append", append), ("prepend", prepend), ("replace", replace), ("default", orDefault)]

end Stencil.Filter.Text
