import Stencil.Decimal.Literal
import Stencil.Json

/-!
# Reading JSON

This file fixes the texts that are JSON, with nothing added to it, and the trees they denote:

* `readText` reads the rest of a string behind its opening quote, `readNumber` a number;
* `readValue`, `readItems` and `readFields` read a value, the elements of an array and the fields
  of an object. They stop at a nesting of `depth` arrays and objects;
* `Json.readRaw?` reads a whole text and keeps repeated fields, `Json.read?` collapses them.

Every reader takes the characters that are left and gives what it read with the characters behind
it. The first argument of the three mutual readers is fuel; each step reads a character or goes
from a list to its first member, so twice the length of the text is enough.
-/

namespace Stencil.Json

/-! ## 1. White space and strings -/

/-- The characters between the tokens of a JSON text. -/
def isSpace (c : Char) : Bool :=
  c = ' ' || c = '\t' || c = '\n' || c = '\r'

/-- The input behind leading white space. -/
def skipSpace (cs : List Char) : List Char :=
  cs.dropWhile isSpace

/-- The value of a hexadecimal digit. -/
def hexDigit? (c : Char) : Option Nat :=
  if '0' ≤ c ∧ c ≤ '9' then some (c.toNat - '0'.toNat)
  else if 'a' ≤ c ∧ c ≤ 'f' then some (c.toNat - 'a'.toNat + 10)
  else if 'A' ≤ c ∧ c ≤ 'F' then some (c.toNat - 'A'.toNat + 10)
  else none

/-- The value of four hexadecimal digits. -/
def hexUnit? (a b c d : Char) : Option Nat := do
  let a ← hexDigit? a
  let b ← hexDigit? b
  let c ← hexDigit? c
  let d ← hexDigit? d
  return ((a * 16 + b) * 16 + c) * 16 + d

/-- The first half of a surrogate pair. -/
def isHighSurrogate (unit : Nat) : Bool :=
  0xD800 ≤ unit && unit < 0xDC00

/-- The second half of a surrogate pair. -/
def isLowSurrogate (unit : Nat) : Bool :=
  0xDC00 ≤ unit && unit < 0xE000

/-- The character a backslash and one further character stand for. -/
def escape? : Char → Option Char
  | '"' => some '"'
  | '\\' => some '\\'
  | '/' => some '/'
  | 'b' => some '\x08'
  | 'f' => some '\x0c'
  | 'n' => some '\n'
  | 'r' => some '\r'
  | 't' => some '\t'
  | _ => none

/-- Reads a string behind its opening quote. Control characters and lone surrogates are refused. -/
def readText : List Char → List Char → Option (String × List Char)
  | _, [] => none
  | done, '"' :: rest => some (String.ofList done.reverse, rest)
  | done, '\\' :: 'u' :: a :: b :: c :: d :: '\\' :: 'u' :: e :: f :: g :: h :: rest =>
    match hexUnit? a b c d with
    | none => none
    | some high =>
      if isHighSurrogate high then
        match hexUnit? e f g h with
        | none => none
        | some low =>
          if isLowSurrogate low then
            readText (Char.ofNat (0x10000 + (high - 0xD800) * 0x400 + (low - 0xDC00)) :: done) rest
          else none
      else if isLowSurrogate high then none
      else readText (Char.ofNat high :: done) ('\\' :: 'u' :: e :: f :: g :: h :: rest)
  | done, '\\' :: 'u' :: a :: b :: c :: d :: rest =>
    match hexUnit? a b c d with
    | none => none
    | some unit =>
      if isHighSurrogate unit || isLowSurrogate unit then none
      else readText (Char.ofNat unit :: done) rest
  | done, '\\' :: c :: rest =>
    match escape? c with
    | none => none
    | some escaped => readText (escaped :: done) rest
  | done, c :: rest => if c.toNat < 0x20 ∨ c = '\\' then none else readText (c :: done) rest

/-! ## 2. Numbers -/

/-- A literal without point and exponent that fits 64 bits is an integer, `-0` apart; every other
    one is the nearest double. A number beyond all doubles is refused. -/
def numeralOf? (negative : Bool) (l : Literal) : Option Numeral :=
  let size := Decimal.natOf l.whole
  let isWhole := l.fraction.isNone && l.exponent.isNone
  if isWhole ∧ ¬negative ∧ size < Nat.pow 2 64 then some (.int size)
  else if isWhole ∧ negative ∧ size ≠ 0 ∧ size ≤ Nat.pow 2 63 then some (.int (-(size : Int)))
  else
    let x := l.decimal.toFloat negative
    if x.isFinite then some (.float x) else none

/-- Is a literal of the shape that JSON admits: a digit before the point, no zero in front of other
    digits, a digit behind the point? -/
def isAdmitted (l : Literal) : Bool :=
  (match l.whole with
    | [] => false
    | '0' :: rest => rest.isEmpty
    | _ => true) &&
  l.fraction != some []

/-- Reads a number. -/
def readNumber (cs : List Char) : Option (Json × List Char) :=
  let (negative, unsigned) := match cs with
    | '-' :: rest => (true, rest)
    | cs => (false, cs)
  match Literal.scan unsigned with
  | none => none
  | some (l, rest) =>
    if isAdmitted l then (numeralOf? negative l).map fun n => (.number n, rest) else none

/-! ## 3. Values -/

mutual

/-- Reads a value in front of which white space has been skipped. -/
def readValue : Nat → Nat → List Char → Option (Json × List Char)
  | 0, _, _ => none
  | fuel + 1, depth, cs =>
    match cs with
    | 'n' :: 'u' :: 'l' :: 'l' :: rest => some (.null, rest)
    | 't' :: 'r' :: 'u' :: 'e' :: rest => some (.bool true, rest)
    | 'f' :: 'a' :: 'l' :: 's' :: 'e' :: rest => some (.bool false, rest)
    | '"' :: rest => (readText [] rest).map fun (s, after) => (.text s, after)
    | '[' :: rest =>
      match depth with
      | 0 => none
      | depth + 1 =>
        match skipSpace rest with
        | ']' :: after => some (.array [], after)
        | inner => (readItems fuel depth inner).map fun (items, after) => (.array items, after)
    | '\x7b' :: rest =>
      match depth with
      | 0 => none
      | depth + 1 =>
        match skipSpace rest with
        | '\x7d' :: after => some (.object [], after)
        | inner => (readFields fuel depth inner).map fun (fields, after) => (.object fields, after)
    | cs => readNumber cs

/-- Reads the elements of an array up to its closing bracket; there is at least one. -/
def readItems : Nat → Nat → List Char → Option (List Json × List Char)
  | 0, _, _ => none
  | fuel + 1, depth, cs =>
    match readValue fuel depth cs with
    | none => none
    | some (item, after) =>
      match skipSpace after with
      | ',' :: rest =>
        (readItems fuel depth (skipSpace rest)).map fun (items, after) => (item :: items, after)
      | ']' :: rest => some ([item], rest)
      | _ => none

/-- Reads the fields of an object up to its closing brace; there is at least one. -/
def readFields : Nat → Nat → List Char → Option (List (String × Json) × List Char)
  | 0, _, _ => none
  | fuel + 1, depth, cs =>
    match cs with
    | '"' :: rest =>
      match readText [] rest with
      | none => none
      | some (name, afterName) =>
        match skipSpace afterName with
        | ':' :: afterColon =>
          match readValue fuel depth (skipSpace afterColon) with
          | none => none
          | some (value, afterValue) =>
            match skipSpace afterValue with
            | ',' :: rest =>
              (readFields fuel depth (skipSpace rest)).map fun (fields, after) =>
                ((name, value) :: fields, after)
            | '\x7d' :: rest => some ([(name, value)], rest)
            | _ => none
        | _ => none
    | _ => none

end

/-- The tree of a text with at most `depth` levels of arrays and objects, repeated fields kept. -/
def readWithin? (depth : Nat) (text : String) : Option Json :=
  let cs := text.toList
  match readValue (2 * cs.length + 2) depth (skipSpace cs) with
  | none => none
  | some (tree, rest) => if skipSpace rest = [] then some tree else none

/-- How deep arrays and objects can be nested in a text. -/
def maxNesting : Nat := 127

/-- The tree of a text, repeated fields kept. -/
def readRaw? (text : String) : Option Json :=
  readWithin? maxNesting text

/-- The tree of a text. A repeated field stands at its first place and has its last value. -/
def read? (text : String) : Option Json :=
  (readRaw? text).map collapse

end Stencil.Json
