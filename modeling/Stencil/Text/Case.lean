import Stencil.Text.Blank
import Stencil.Text.CaseTables

/-!
# Upper and lower case

This file fixes the case mappings of characters (`upperOf`, `lowerOf`: one character can become
several) and of texts (`upper`, `lower`). Lower case looks at the neighbours of a capital sigma:
at the end of a word it becomes the final form, elsewhere the plain one.
-/

namespace Stencil.Text

/-! ## 1. Characters -/

/-- The code point a mapping row sends a code point to. -/
def shifted (row : Nat × Nat × Nat × Int) (code : Nat) : Option Nat :=
  let (first, last, step, shift) := row
  if first ≤ code && code ≤ last && (code - first) % step == 0 then
    some ((code : Int) + shift).toNat
  else none

/-- A character under a case mapping given by its tables; one that no table names stays. -/
def mapped (rows : List (Nat × Nat × Nat × Int)) (expansions : List (Nat × List Nat)) (c : Char) :
    List Char :=
  match expansions.find? (fun row => row.1 == c.toNat) with
  | some (_, codes) => codes.map Char.ofNat
  | none =>
    match rows.findSome? (fun row => shifted row c.toNat) with
    | some code => [Char.ofNat code]
    | none => [c]

/-- The upper case of a character. -/
def upperOf (c : Char) : List Char :=
  mapped CaseTables.upperRows CaseTables.upperExpansions c

/-- The lower case of a character, whatever stands beside it. -/
def lowerOf (c : Char) : List Char :=
  mapped CaseTables.lowerRows CaseTables.lowerExpansions c

/-! ## 2. Texts -/

/-- Is the first character that is not case-ignorable a cased one? -/
def reachesCased (cs : List Char) : Bool :=
  match cs.find? (fun c => !inRanges CaseTables.caseIgnorable c.toNat) with
  | some c => inRanges CaseTables.cased c.toNat
  | none => false

/-- Lower case from left to right. `before` holds the characters already read, the last one first;
    a capital sigma that ends a word takes the final form. -/
def lowerFrom : List Char → List Char → List Char
  | _, [] => []
  | before, c :: rest =>
    (if c = 'Σ' then [if reachesCased before && !reachesCased rest then 'ς' else 'σ']
     else lowerOf c) ++ lowerFrom (c :: before) rest

/-- A text in upper case. -/
def upper (s : String) : String :=
  String.ofList (s.toList.flatMap upperOf)

/-- A text in lower case. -/
def lower (s : String) : String :=
  String.ofList (lowerFrom [] s.toList)

/-- A text with its first character in upper case and all others in lower case, each character
    taken alone. -/
def capitalize (s : String) : String :=
  match s.toList with
  | [] => ""
  | c :: rest => String.ofList (upperOf c ++ rest.flatMap lowerOf)

/-- Equality of two texts that disregards the case of the letters a to z. -/
def equalsIgnoringAsciiCase (s t : String) : Bool :=
  s.toList.map Char.toLower == t.toList.map Char.toLower

end Stencil.Text
