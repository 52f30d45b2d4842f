/-
Stencil/Output.lean

How values become output: the texts of the output forms.
-/
import Stencil.Directive
import Stencil.Escape
import Stencil.Value.Coercion

namespace Stencil

/-- The text of a value without the white space at its ends; nothing for what has no value. -/
def Value.trimmed (v : Value) : List Char :=
  if v.isNullish then [] else Text.trimValue v.chars

/-- Between the items of an array where no separator is given. -/
def defaultJoiner : List Char := "<br>".toList

/-- The items of an array, trimmed and escaped, with `separator` between them; blank ones do not count.
What is no array has no items. -/
def joinItems (separator : List Char) : Value → List Char
  | .array _ items =>
    let texts := (items.map fun item => Text.trimValue item.chars).filter (!·.isEmpty)
    separator.intercalate (texts.map Escape.html)
  | _ => []

/-- An amount of money: two digits behind the point, a half rounded up.  What is no finite number is no
amount. -/
def moneyText (v : Value) : List Char :=
  let x := v.toNumber
  if Number.isFinite x then
    let amount := Number.floor (x * 100.0 + 0.5) / 100.0
    Number.fixed 2 (if amount == 0.0 then 0.0 else amount)
  else []

/-- A text cut to `length` characters, and three dots if there were more. -/
def truncated (length : Nat) (text : List Char) : List Char :=
  if length < text.length then text.take length ++ "...".toList else text

/-- The rest of a text behind a beginning in lower-case letters, which the text may write in either. -/
def afterScheme? (scheme text : List Char) : Option (List Char) :=
  if (text.take scheme.length).map Char.toLower = scheme then some (text.drop scheme.length) else none

/-- The characters that no address holds. -/
def isLineEnd (c : Char) : Bool := c = '\n' || c = '\r' || c = '\u2028' || c = '\u2029'

/-- An address with another protocol, if it is one that names a host by `http` or `https`. -/
def replaceProtocol (protocol address : List Char) : List Char :=
  match (afterScheme? "https:".toList address).or (afterScheme? "http:".toList address) with
  | some ('/' :: '/' :: c :: rest) =>
    if (c :: rest).any isLineEnd then address else protocol ++ '/' :: '/' :: c :: rest
  | _ => address

/-- What an output form writes for a value. -/
def OutputForm.write (escapeDefault : Bool) (pageProtocol : String) (form : OutputForm) (v : Value) :
    List Char :=
  match form with
  | .default => if escapeDefault then Escape.html v.chars else v.chars
  | .raw => v.chars
  | .html => Escape.html v.chars
  | .url => Escape.uriComponent v.chars
  | .eventAttribute => Escape.eventHtml v.chars
  | .array separator => joinItems separator.toList v
  | .money => moneyText v
  | .truncate length =>
    match v with
    | .text t => Escape.html (truncated length t.toList)
    | _ => Escape.html v.chars
  | .protocol => Escape.html (replaceProtocol pageProtocol.toList v.chars)

end Stencil
