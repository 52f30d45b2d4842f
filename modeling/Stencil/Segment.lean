/-
Stencil/Segment.lean

A template source is cut at two delimiters into literal text, directives and block
comments (`*` right behind the left delimiter, closed by `*` and the right one).
The source is walked from left to right; a piece is recognised at its first
character and the walk then passes over it, so the pieces follow one another
without gap or overlap.  Comments leave no segment.

Inside a directive a line comment (`//` outside of a quoted text) is overwritten with
spaces up to and including the line break, byte for byte, so that every place behind
it stays where it was.  A comment that no line break follows is kept as it is.
-/
import Stencil.Fault

namespace Stencil

/-- The texts that open and close a directive. -/
structure Delimiters where
  left : List Char
  right : List Char
deriving DecidableEq, Repr

/-- A piece of a source.  The slice of a directive is what stands between the delimiters, line comments
blanked. -/
inductive Segment where
  | literal (text : Slice)
  | directive (body : Slice)
deriving DecidableEq, Repr

/-! ### Line comments -/

/-- Where the walk over the body of a directive is. -/
inductive CommentWalk where
  | code
  | quoted (quote : Char)
  /-- Behind a backslash in a quoted text. -/
  | escaped (quote : Char)
  | comment
deriving DecidableEq, Repr

/-- Overwrites the line comments of a directive. -/
def blankComments (walk : CommentWalk) : List Char → List Char
  | [] => []
  | c :: cs =>
    match walk with
    | .quoted quote =>
      let next :=
        if c = '\\' then .escaped quote else if c = quote then .code else .quoted quote
      c :: blankComments next cs
    | .escaped quote => c :: blankComments (.quoted quote) cs
    | .comment =>
      List.replicate c.utf8Size ' ' ++ blankComments (if c = '\n' then .code else .comment) cs
    | .code =>
      if c = '\'' ∨ c = '"' then c :: blankComments (.quoted c) cs
      else if c = '/' ∧ cs.head? = some '/' ∧ cs.contains '\n' then
        ' ' :: blankComments .comment cs
      else c :: blankComments .code cs

/-! ### Segments -/

/-- The walk behind `segments`: `skip` characters still belong to the piece that was recognised last.
Literal text goes on up to the next left delimiter. -/
def segmentsFrom (d : Delimiters) (skip offset : Nat) :
    List Char → Except CompileFault (List Segment)
  | [] => .ok []
  | c :: cs =>
    let next := offset + c.utf8Size
    match skip with
    | skip + 1 => segmentsFrom d skip next cs
    | 0 =>
      match (⟨offset, c :: cs⟩ : Slice).after? d.left with
      | none =>
        let text :=
          match Text.splitFirst? d.left (c :: cs) with
          | some (before, _) => before
          | none => c :: cs
        (segmentsFrom d (text.length - 1) next cs).map (.literal ⟨offset, text⟩ :: ·)
      | some behind =>
        let unclosed : Span := ⟨offset, behind.stop⟩
        match behind.after? ['*'] with
        | some inside =>
          match Text.splitFirst? ('*' :: d.right) inside.chars with
          | none => .error (.malformed .unclosedComment unclosed)
          | some (_, rest) => segmentsFrom d (cs.length - rest.length) next cs
        | none =>
          match Text.splitFirst? d.right behind.chars with
          | none => .error (.malformed .unclosedDirective unclosed)
          | some (body, rest) =>
            (segmentsFrom d (cs.length - rest.length) next cs).map
              (.directive ⟨behind.start, blankComments .code body⟩ :: ·)

/-- The segments of a source. -/
def segments (d : Delimiters) (source : List Char) : Except CompileFault (List Segment) :=
  segmentsFrom d 0 0 source

end Stencil
