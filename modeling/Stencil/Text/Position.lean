/-
Stencil/Text/Position.lean

Cutting a text by positions.  All positions count characters, and a position
outside of the text is moved to its nearest end.
-/
import Stencil.Text.Search

namespace Stencil.Text

/-- The part of a text from one position up to another. -/
def slice (start stop : Int) (cs : List Char) : List Char :=
  (cs.take stop.toNat).drop start.toNat

/-- The position nearest to `i` that lies in the text. -/
def clamp (i : Int) (cs : List Char) : Nat := min i.toNat cs.length

/-- The position of the first occurrence of a pattern. -/
def indexOf? (pattern cs : List Char) : Option Nat :=
  (splitFirst? pattern cs).map (·.1.length)

/-- `count` characters from a position on; a negative one counts from the end. -/
def substr (start : Int) (count : Option Int) (cs : List Char) : List Char :=
  let start := if start < 0 then max (cs.length + start) 0 else start
  slice start (start + max (count.getD cs.length) 0) cs

/-- The part between two positions, whichever comes first. -/
def substring (start : Int) (stop : Option Int) (cs : List Char) : List Char :=
  let i := clamp start cs
  let j := stop.elim cs.length (clamp · cs)
  slice (min i j) (max i j) cs

/-- The parts of a text between the occurrences of a separator, at most `limit` of them.  Without a
separator the text is one part, and an empty one takes all characters apart. -/
def split (separator : Option (List Char)) (limit : Option Int) (cs : List Char) :
    List (List Char) :=
  let parts := match separator with
    | none => [cs]
    | some [] => cs.map ([·])
    | some separator => splitAll separator cs
  match limit with
  | none => parts
  | some limit => parts.take limit.toNat

end Stencil.Text
