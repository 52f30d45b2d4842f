/-
Stencil/Escape.lean

Writing text into markup and into addresses.

In markup, escaping is a row of replacements, each over the whole text: the ampersand
goes first, so that the entities written for the other characters are not escaped in
their turn.  For the value of an event attribute the backslash is no special
character, and the escape sequences of a serialised payload are resolved afterwards.

In a component of an address a few characters stand for themselves; every other one is
written byte by byte, as a percent sign and two digits.  Which characters these are is
chosen here (`isUnreserved`).  The writing itself is the work of a library for percent
encoding, which is not modelled: `uriComponent` is what is assumed of it.
-/
import Stencil.Text.Letter
import Stencil.Text.Search

namespace Stencil.Escape

/-! ### Markup -/

/-- The special characters of markup with their entities, in the order in which they are replaced. -/
def entities : List (Char × String) :=
  [('&', "&amp;"), ('<', "&lt;"), ('>', "&gt;"), ('\\', "&#92;"), ('"', "&quot;"), ('\'', "&#39;")]

/-- The escape sequences that are resolved in the value of an event attribute, in their order. -/
def sequences : List (String × String) :=
  [("\\\\", "\\"), ("\\/", "/"), ("\\n", "\n"), ("\\r", "\r")]

/-- One replacement after the other, each over the result of the ones before. -/
def replaceEach (replacements : List (List Char × List Char)) (text : List Char) : List Char :=
  replacements.foldl (fun cs (pattern, replacement) => Text.replaceAll pattern replacement cs) text

/-- A text with its special characters written as entities. -/
def html (text : List Char) : List Char :=
  replaceEach (entities.map fun (c, entity) => ([c], entity.toList)) text

/-- The text of an event attribute: escaped but for the backslash, then escape sequences are resolved. -/
def eventHtml (text : List Char) : List Char :=
  let escaped := (entities.filter (·.1 ≠ '\\')).map fun (c, entity) => ([c], entity.toList)
  let resolved := sequences.map fun (written, meant) => (written.toList, meant.toList)
  replaceEach (escaped ++ resolved) text

/-! ### Components of addresses -/

/-- A character that stands for itself in a component of an address. -/
def isUnreserved (c : Char) : Bool :=
  isAsciiLetter c || isDecimalDigit c || "-_.!~*'()".toList.contains c

theorem isUnreserved_iff {c : Char} :
    isUnreserved c = true ↔ ('a' ≤ c ∧ c ≤ 'z') ∨ ('A' ≤ c ∧ c ≤ 'Z') ∨ ('0' ≤ c ∧ c ≤ '9') ∨
      c ∈ ['-', '_', '.', '!', '~', '*', '\'', '(', ')'] := by
  have hmarks : "-_.!~*'()".toList = ['-', '_', '.', '!', '~', '*', '\'', '(', ')'] := rfl
  rw [isUnreserved, hmarks, Bool.or_eq_true, Bool.or_eq_true, List.contains_iff_mem, or_assoc]
  simp only [isAsciiLetter, isDecimalDigit, Bool.or_eq_true, Bool.and_eq_true, decide_eq_true_iff, or_assoc]

/-- The upper-case digit of base sixteen for a number below sixteen. -/
def hexDigit (n : Nat) : Char :=
  if n < 10 then Char.ofNat ('0'.toNat + n) else Char.ofNat ('A'.toNat + (n - 10))

/-- A byte as a percent sign and two digits. -/
def percentByte (b : UInt8) : List Char := ['%', hexDigit (b.toNat / 16), hexDigit (b.toNat % 16)]

/-- A text as a component of an address.  This is assumed of the library that percent-encodes: given a set
of ASCII characters, it writes each byte of a character that is in the set or not of ASCII as a percent
sign and two upper-case digits, and keeps all other characters.  The set it is given here holds the
characters of ASCII that are not unreserved. -/
def uriComponent (text : List Char) : List Char :=
  text.flatMap fun c =>
    if isUnreserved c then [c] else (String.utf8EncodeChar c).flatMap percentByte

end Stencil.Escape
