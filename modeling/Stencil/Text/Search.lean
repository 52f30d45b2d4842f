/-
Stencil/Text/Search.lean

Finding, replacing and splitting by a fixed pattern, on texts as lists of
characters.  All of these look for the pattern from left to right and go on
behind an occurrence, so occurrences never overlap.  A walk that has met the
pattern passes over the rest of it one character at a time (`skip` counts what is
left to pass over), which makes every walk a recursion on the text itself.
-/

namespace Stencil.Text

/-- The number of bytes that a text takes in UTF-8. -/
def bytes : List Char → Nat
  | [] => 0
  | c :: cs => c.utf8Size + bytes cs

/-- What stands before the first occurrence of `pattern`, and what stands after it. -/
def splitFirst? (pattern : List Char) : List Char → Option (List Char × List Char)
  | [] => if pattern = [] then some ([], []) else none
  | c :: cs =>
    if pattern.isPrefixOf (c :: cs) then some ([], (c :: cs).drop pattern.length)
    else (splitFirst? pattern cs).map fun (before, after) => (c :: before, after)

/-- What stands before the last occurrence of the character `mark`, and what stands after it. -/
def splitLast? (mark : Char) : List Char → Option (List Char × List Char)
  | [] => none
  | c :: cs =>
    match splitLast? mark cs with
    | some (before, after) => some (c :: before, after)
    | none => if c = mark then some ([], cs) else none

/-- The walk behind `replaceAll`. -/
def replaceFrom (pattern replacement : List Char) : (skip : Nat) → List Char → List Char
  | _, [] => []
  | skip + 1, _ :: cs => replaceFrom pattern replacement skip cs
  | 0, c :: cs =>
    if pattern.isPrefixOf (c :: cs) then
      replacement ++ replaceFrom pattern replacement (pattern.length - 1) cs
    else c :: replaceFrom pattern replacement 0 cs

/-- Every occurrence of the non-empty `pattern` replaced. -/
def replaceAll (pattern replacement text : List Char) : List Char :=
  replaceFrom pattern replacement 0 text

/-- The first occurrence of `pattern` replaced; an empty pattern occurs at the start. -/
def replaceFirst (pattern replacement text : List Char) : List Char :=
  match splitFirst? pattern text with
  | some (before, after) => before ++ replacement ++ after
  | none => text

/-- The walk behind `splitAll`: the part that is being read, and the parts after it. -/
def splitFrom (separator : List Char) : (skip : Nat) → List Char → List Char × List (List Char)
  | _, [] => ([], [])
  | skip + 1, _ :: cs => splitFrom separator skip cs
  | 0, c :: cs =>
    if separator.isPrefixOf (c :: cs) then
      let (part, parts) := splitFrom separator (separator.length - 1) cs
      ([], part :: parts)
    else
      let (part, parts) := splitFrom separator 0 cs
      (c :: part, parts)

/-- The parts of a text between the occurrences of the non-empty `separator`; a text without any
is one part. -/
def splitAll (separator text : List Char) : List (List Char) :=
  let (part, parts) := splitFrom separator 0 text
  part :: parts

end Stencil.Text
