/-
Stencil/Text/Case.lean

Upper and lower case of a whole text.  A mapping may lengthen the text (one
character can have an upper-case form of three), and one letter is written
differently at the end of a word: a capital sigma is lowered to the final form
exactly when a letter with case stands before it and none after it, characters
that do not matter for case (such as apostrophes) being passed over.
-/
import Stencil.Text.Case.Table

namespace Stencil

/-- The other case of the code point `n` by a list of ascending runs: the first
run that reaches up to `n` decides. -/
def shiftByRuns : List CaseRun → Nat → Nat
  | [], n => n
  | run :: rest, n =>
    if run.last < n then shiftByRuns rest n
    else if run.first ≤ n ∧ (n - run.first) % run.step = 0 then (n + run.shift).toNat
    else shiftByRuns rest n

/-- The upper-case form of one character. -/
def upperOf (c : Char) : List Char :=
  if c.toNat < 0x80 then [c.toUpper]
  else
    match upperExpansions.lookup c.toNat with
    | some codes => codes.map Char.ofNat
    | none => [Char.ofNat (shiftByRuns upperRuns c.toNat)]

/-- The lower-case form of one character that does not depend on its neighbours. -/
def lowerOf (c : Char) : List Char :=
  if c.toNat < 0x80 then [c.toLower]
  else if c = 'İ' then ['i', '\u0307']
  else [Char.ofNat (shiftByRuns lowerRuns c.toNat)]

/-- The first character that matters for case is a letter with case. -/
def meetsCased : List Char → Bool
  | [] => false
  | c :: cs =>
    if caseIgnorableRanges.covers c.toNat then meetsCased cs else casedRanges.covers c.toNat

namespace Text

/-- The text in upper case. -/
def toUpper (cs : List Char) : List Char := cs.flatMap upperOf

/-- The text in lower case; `before` holds what has been read, nearest character first. -/
def lowerAfter (before : List Char) : List Char → List Char
  | [] => []
  | c :: cs =>
    let lowered :=
      if c = 'Σ' then (if meetsCased before && !meetsCased cs then ['ς'] else ['σ']) else lowerOf c
    lowered ++ lowerAfter (c :: before) cs

/-- The text in lower case. -/
def toLower (cs : List Char) : List Char := lowerAfter [] cs

end Text

end Stencil
