/-
Stencil/Expression/Read.lean

Reading code: the statements of a directive, a single expression, or a list of
arguments.  An argument list is read as the items of an array written around it,
so the code takes up one byte more on either side; the array starts one byte
earlier to make up for the bracket, where there is room for it.
-/
import Stencil.Expression.Progress
import Stencil.Token.Scan
import Stencil.Fault

namespace Stencil

/-- The statements that a code text consists of. -/
def readStatements (code : Slice) : Except CompileFault (List Statement) :=
  let read : Except Span (List Statement) := do
    let tokens ← Token.scan code
    Progress.start.readAll (.at code.stop) tokens
  match read with
  | .ok statements => .ok statements
  | .error span => .error (.malformed .unreadable span)

/-- The one expression that a code text consists of. -/
def readExpression (code : Slice) : Except CompileFault Expression := do
  match ← readStatements code with
  | [.evaluate value] => .ok value
  | _ :: _ :: _ => .error (.malformed .severalExpressions code.span)
  | _ => .error (.malformed .noExpression code.span)

/-- The arguments that a code text lists, separated by commas. -/
def readArguments (code : Slice) : Except CompileFault (List Expression) := do
  if code.chars.all isBlank then return []
  match ← readExpression ⟨code.start - 1, '[' :: code.chars ++ [']']⟩ with
  | .array _ items => .ok items
  | _ => .error (.malformed .noArgumentList code.span)

end Stencil
