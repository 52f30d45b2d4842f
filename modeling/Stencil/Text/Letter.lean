/-
Stencil/Text/Letter.lean

Letters, digits and the characters of names.  A name starts with a letter, `_`
or `$` and goes on with letters, digits of any script, `_` and `$`.
-/
import Stencil.Text.Letter.Table

namespace Stencil

/-- A letter of any script. -/
def isAlphabetic (c : Char) : Bool := alphabeticRanges.covers c.toNat

theorem isAlphabetic_iff {c : Char} :
    isAlphabetic c = true ↔ ∃ range ∈ alphabeticRanges, range.1 ≤ c.toNat ∧ c.toNat ≤ range.2 :=
  CodeRanges.covers_iff (by decide +kernel)

/-- A digit or other number character of any script. -/
def isNumeric (c : Char) : Bool := numericRanges.covers c.toNat

theorem isNumeric_iff {c : Char} :
    isNumeric c = true ↔ ∃ range ∈ numericRanges, range.1 ≤ c.toNat ∧ c.toNat ≤ range.2 :=
  CodeRanges.covers_iff (by decide +kernel)

/-- One of the ten decimal digits of ASCII. -/
def isDecimalDigit (c : Char) : Bool := '0' ≤ c && c ≤ '9'

/-- One of the letters of ASCII, of either case. -/
def isAsciiLetter (c : Char) : Bool := ('a' ≤ c && c ≤ 'z') || ('A' ≤ c && c ≤ 'Z')

/-- A character that a name may start with. -/
def isNameStart (c : Char) : Bool := isAlphabetic c || c == '_' || c == '$'

/-- A character that a name may go on with. -/
def isNamePart (c : Char) : Bool := isAlphabetic c || isNumeric c || c == '_' || c == '$'

namespace Text

/-- Splits off the name at the head of a text, if one stands there. -/
def splitName? : List Char → Option (List Char × List Char)
  | [] => none
  | c :: cs =>
    if isNameStart c then some (c :: cs.takeWhile isNamePart, cs.dropWhile isNamePart) else none

/-- The text is one name and nothing else. -/
def isName (cs : List Char) : Bool :=
  match splitName? cs with
  | some (_, []) => true
  | _ => false

end Text

end Stencil
