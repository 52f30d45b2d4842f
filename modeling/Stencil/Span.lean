/-
Stencil/Span.lean

Places in a template source.  A span is a range of byte offsets; a slice is a
part of the source that knows the offset at which it starts, so that whatever is
cut out of a directive can still say where it stood.
-/
import Stencil.Text.Blank
import Stencil.Text.Letter
import Stencil.Text.Search

namespace Stencil

/-- The bytes from `start` up to and without `stop`. -/
structure Span where
  start : Nat
  stop : Nat
deriving DecidableEq, Repr, Inhabited

/-- The empty span at an offset. -/
def Span.at (offset : Nat) : Span := ⟨offset, offset⟩

/-- A part of a source, with the byte offset of its first character. -/
structure Slice where
  start : Nat
  chars : List Char
deriving DecidableEq, Repr

namespace Slice

/-- The offset behind the last character. -/
def stop (s : Slice) : Nat := s.start + Text.bytes s.chars

/-- The bytes that the slice covers. -/
def span (s : Slice) : Span := ⟨s.start, s.stop⟩

/-- The first character of the slice, or its end if there is none. -/
def head (s : Slice) : Span := ⟨s.start, s.start + Text.bytes (s.chars.take 1)⟩

/-- What is left behind the first `n` characters. -/
def drop (n : Nat) (s : Slice) : Slice :=
  ⟨s.start + Text.bytes (s.chars.take n), s.chars.drop n⟩

/-- The slice without the white space at its start. -/
def trimStart (s : Slice) : Slice :=
  ⟨s.start + Text.bytes (s.chars.takeWhile isBlank), s.chars.dropWhile isBlank⟩

/-- The slice without the white space at its end. -/
def trimEnd (s : Slice) : Slice := { s with chars := Text.dropTrailing isBlank s.chars }

/-- The slice without the white space at its ends. -/
def trim (s : Slice) : Slice := s.trimStart.trimEnd

/-- The rest behind a fixed beginning, if the slice has it. -/
def after? (lead : List Char) (s : Slice) : Option Slice :=
  if lead.isPrefixOf s.chars then some (s.drop lead.length) else none

/-- What stands before a fixed last character, if the slice ends with it. -/
def before? (last : Char) (s : Slice) : Option Slice :=
  if s.chars.getLast? = some last then some { s with chars := s.chars.dropLast } else none

/-- The rest behind a word, if the slice begins with it and no name goes on there. -/
def afterWord? (word : List Char) (s : Slice) : Option Slice :=
  match s.after? word with
  | some rest => if rest.chars.head?.any isNamePart then none else some rest
  | none => none

/-- The name at the head of the slice, and the rest behind it. -/
def splitName? (s : Slice) : Option (String × Slice) :=
  match Text.splitName? s.chars with
  | some (name, rest) => some (String.ofList name, ⟨s.start + Text.bytes name, rest⟩)
  | none => none

end Slice

end Stencil
