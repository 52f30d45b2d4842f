/-
Stencil/Number/Reading.lean

Reading numerals.  A numeral is an optional sign, digits with at most one point
among or around them, and an optional exponent, which counts only if it has a
digit.  `takeNumeral?` reads the longest numeral at the head of a text;
`readNumeral?` demands that nothing is left.
-/
import Stencil.Number.Decimal
import Stencil.Text.Blank
import Stencil.Text.Letter

namespace Stencil.Number

/-- Splits off a sign; `true` is minus. -/
def takeSign : List Char → Bool × List Char
  | '-' :: cs => (true, cs)
  | '+' :: cs => (false, cs)
  | cs => (false, cs)

/-- Splits off the digits at the head of a text. -/
def takeDigits (cs : List Char) : List Char × List Char :=
  (cs.takeWhile isDecimalDigit, cs.dropWhile isDecimalDigit)

/-- Splits off an exponent, if a whole one stands at the head of the text. -/
def takeExponent (cs : List Char) : Int × List Char :=
  match cs with
  | mark :: rest =>
    if mark = 'e' ∨ mark = 'E' then
      let (negative, rest) := takeSign rest
      match takeDigits rest with
      | ([], _) => (0, cs)
      | (ds, rest) => (if negative then -(natOfDigits ds : Int) else natOfDigits ds, rest)
    else (0, cs)
  | [] => (0, cs)

/-- Splits off the digits behind a point, and the point. -/
def takeFraction : List Char → List Char × List Char
  | '.' :: cs => takeDigits cs
  | cs => ([], cs)

/-- The longest numeral at the head of a text, and what follows it. -/
def takeNumeral? (cs : List Char) : Option (Numeral × List Char) :=
  let (negative, cs) := takeSign cs
  let (whole, cs) := takeDigits cs
  let (fraction, cs) := takeFraction cs
  if whole.isEmpty && fraction.isEmpty then none
  else
    let (exponent, cs) := takeExponent cs
    some (⟨negative, natOfDigits (whole ++ fraction), exponent - fraction.length⟩, cs)

/-- The number that a text writes, if it is one numeral and nothing else. -/
def readNumeral? (cs : List Char) : Option Float :=
  match takeNumeral? cs with
  | some (numeral, []) => some numeral.value
  | _ => none

/-- The number that the text of a value stands for: white space around it does not count, nothing is
zero, infinities are spelled out, and what is no numeral is no number. -/
def ofText (text : List Char) : Float :=
  let cs := Text.trimValue text
  if cs.isEmpty then 0.0
  else if cs = "Infinity".toList ∨ cs = "+Infinity".toList then infinity
  else if cs = "-Infinity".toList then -infinity
  else (readNumeral? cs).getD nan

/-- A natural number below `2^64` in decimal digits; leading zeros and a plus sign are allowed. -/
def readIndex? (cs : List Char) : Option Nat :=
  let ds := match cs with
    | '+' :: rest => rest
    | _ => cs
  if ds.isEmpty || !ds.all isDecimalDigit then none
  else
    let n := natOfDigits ds
    if n < 2 ^ 64 then some n else none

/-- The digit that a character stands for in a base up to 36. -/
def digitIn? (base : Nat) (c : Char) : Option Nat :=
  let digit? :=
    if isDecimalDigit c then some (c.toNat - '0'.toNat)
    else if isAsciiLetter c then some (c.toLower.toNat - 'a'.toNat + 10)
    else none
  digit?.filter (· < base)

/-- The number written by the digits of a base at the head of a text; no digit, no number.  Each step
rounds, so a long run is read as a double would count it up. -/
def ofDigitsIn (base : Nat) (cs : List Char) : Float :=
  let rec count (total : Option Float) : List Char → Float
    | [] => total.getD nan
    | c :: cs =>
      match digitIn? base c with
      | some d => count (some (total.getD 0.0 * ofNat base + ofNat d)) cs
      | none => total.getD nan
  count none cs

/-- The whole number at the head of a text.  The base may be given; otherwise `0x` marks base 16 and
ten is the base. -/
def ofWhole (text : List Char) (base : Int) : Float :=
  let (negative, cs) := takeSign (text.dropWhile isTrimmed)
  let (base, cs) :=
    match cs with
    | '0' :: x :: rest =>
      if (x = 'x' ∨ x = 'X') ∧ (base ≤ 0 ∨ base = 16) then (16, rest) else (base, cs)
    | _ => (base, cs)
  let base := if base ≤ 0 then 10 else base
  if base < 2 ∨ 36 < base then nan
  else
    let magnitude := ofDigitsIn base.toNat cs
    if negative then -magnitude else magnitude

/-- The numeral at the head of a text; whatever follows it does not count. -/
def ofLeading (text : List Char) : Float :=
  let cs := text.dropWhile isTrimmed
  let (negative, unsigned) := takeSign cs
  if "Infinity".toList.isPrefixOf unsigned then (if negative then -infinity else infinity)
  else
    match takeNumeral? cs with
    | some (numeral, _) => numeral.value
    | none => nan

end Stencil.Number
