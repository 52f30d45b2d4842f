/-
Stencil/Directive.lean

What a directive can be.
-/
import Stencil.Expression

namespace Stencil

/-- How a value is written into the output. -/
inductive OutputForm where
  /-- Escaped or not, as the configuration says. -/
  | default
  | html
  | raw
  | url
  /-- For the value of an event attribute. -/
  | eventAttribute
  /-- The items of an array, with `separator` between them. -/
  | array (separator : String)
  | money
  /-- A text cut to `length` characters. -/
  | truncate (length : Nat)
  /-- An address, with the protocol of the page. -/
  | protocol
deriving DecidableEq, Repr

/-- A directive. -/
inductive Directive where
  | ifThen (condition : Expression)
  | elseIf (condition : Expression)
  | otherwise
  | endIf
  | forEach (item : String) (collection : Expression)
  | forEachElse
  | forEachBreak
  | endForEach
  | define (name : String) (parameters : List String)
  | endDefine
  | run (name : String) (arguments : List Expression)
  | output (form : OutputForm) (value : Expression)
  | statements (statements : List Statement)

end Stencil
