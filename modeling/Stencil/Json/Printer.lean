import Stencil.Decimal.Shortest
import Stencil.Json

/-!
# Writing JSON

This file fixes the one text that stands for a tree (`Json.render`): no white space, fields in the
order of the tree, and escapes only where JSON demands them.
-/

namespace Stencil.Json

/-! ## 1. Numbers -/

/-- Doubles in JSON have the shortest digits, of two equally near the even one. They are written
    out, with a point, while the leading digit stands between `10^-5` and `10^15`, and in
    scientific form beyond. -/
def numberLayout : Layout where
  tie := .toEven
  wholeSuffix := ".0"
  writtenOut := fun top => -5 ≤ top && top < 16

/-- A number; what is not finite is `null`. -/
def renderNumeral : Numeral → String
  | .int i => Decimal.integerText i
  | .float x =>
    match Binary64.ofFloat? x with
    | some b => numberLayout.render b
    | none => "null"

/-! ## 2. Strings -/

/-- A hexadecimal digit in lower case. -/
def hexChar (n : Nat) : Char :=
  if n < 10 then Char.ofNat ('0'.toNat + n) else Char.ofNat ('a'.toNat + (n - 10))

/-- A character inside a string: quotes, backslashes and control characters are escaped. -/
def escapeChar (c : Char) : List Char :=
  if c = '"' then ['\\', '"']
  else if c = '\\' then ['\\', '\\']
  else if c = '\x08' then ['\\', 'b']
  else if c = '\x0c' then ['\\', 'f']
  else if c = '\n' then ['\\', 'n']
  else if c = '\r' then ['\\', 'r']
  else if c = '\t' then ['\\', 't']
  else if c.toNat < 0x20 then ['\\', 'u', '0', '0', hexChar (c.toNat / 16), hexChar (c.toNat % 16)]
  else [c]

/-- A string with its quotes. -/
def renderText (s : String) : String :=
  "\"" ++ String.ofList (s.toList.flatMap escapeChar) ++ "\""

/-! ## 3. Trees -/

mutual

/-- The text of a tree. -/
def render : Json → String
  | .null => "null"
  | .bool true => "true"
  | .bool false => "false"
  | .number n => renderNumeral n
  | .text s => renderText s
  | .array items => "[" ++ renderItems items ++ "]"
  | .object fields => "\x7b" ++ renderFields fields ++ "\x7d"

/-- Elements with commas between them. -/
def renderItems : List Json → String
  | [] => ""
  | [item] => render item
  | item :: rest => render item ++ "," ++ renderItems rest

/-- Fields with commas between them. -/
def renderFields : List (String × Json) → String
  | [] => ""
  | [(name, value)] => renderText name ++ ":" ++ render value
  | (name, value) :: rest => renderText name ++ ":" ++ render value ++ "," ++ renderFields rest

end

end Stencil.Json
