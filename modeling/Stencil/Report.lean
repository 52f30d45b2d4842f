/-
Stencil/Report.lean

Reports: where in its source a fault lies, by line and column.

Reports are drawn by a library that is not modelled.  It is given the span of a fault as
it stands, and this module says what is assumed of it: it takes the start of the span
for a number of characters, wherever the span ends, and names the line and the column
that it comes to behind so many characters (`Place.ofOffset?`).  Lines end at a line
feed, before which a carriage return may stand.  Where the source has fewer characters,
it names nothing.
-/
import Stencil.Fault

namespace Stencil

/-- A line and a column, both counted from one. -/
structure Place where
  line : Nat
  column : Nat
deriving DecidableEq, Repr

namespace Place

/-- The place of the first character. -/
def first : Place := ⟨1, 1⟩

/-- The place behind a character, as the library is assumed to count: a line feed ends the line, and every
other character takes one column. -/
def after (c : Char) (p : Place) : Place :=
  if c = '\n' then ⟨p.line + 1, 1⟩ else { p with column := p.column + 1 }

/-- The place of the character behind the first `offset` ones of a text, walked to from `p`.  The library
is assumed to know no line behind the last line end: the end of a text that ends a line still belongs to
that line. -/
def walk (p : Place) : (offset : Nat) → List Char → Option Place
  | 0, _ => some p
  | _ + 1, [] => none
  | offset + 1, [_] => if offset = 0 then some { p with column := p.column + 1 } else none
  | offset + 1, c :: cs => walk (p.after c) offset cs

/-- The place of the character behind the first `offset` ones of a text. -/
def ofOffset? (offset : Nat) (text : List Char) : Option Place := first.walk offset text

/-- The place in a file, as a report names it. -/
def inFile (file : String) (p : Place) : String :=
  file ++ ":" ++ toString p.line ++ ":" ++ toString p.column

end Place

/-- What a report says about a fault: where it lies in the named file, and what is written there. -/
structure Report where
  location : String
  label : String
deriving DecidableEq, Repr

/-- The report of a fault in a source.  There is none for a fault without a place.  The place of every
other one is handed to the library in bytes, which is assumed to take them for characters and to name
nothing behind the last character of the source. -/
def Fault.report? (file source : String) (f : Fault) : Option Report := do
  let span ← f.span?
  let place ← Place.ofOffset? span.start source.toList
  return ⟨place.inFile file, f.label⟩

end Stencil
