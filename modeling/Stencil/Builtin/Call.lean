/-
Stencil/Builtin/Call.lean

What the built-in functions answer.  None of them fails: an argument that is not
given is undefined, and one of the wrong kind is brought to the right one.
-/
import Stencil.Output

namespace Stencil

/-- The argument at a position; undefined if there are fewer. -/
def argumentAt (arguments : List Value) (position : Nat) : Value :=
  (arguments[position]?).getD .undefined

/-- A given value, and something else in place of an undefined one. -/
def Value.ifGiven {α : Type} (v : Value) (given : Value → α) (other : α) : α :=
  match v with
  | .undefined => other
  | v => given v

/-- Arrays, objects and functions. -/
def Value.isObject : Value → Bool
  | .array .. | .object .. | .function _ => true
  | _ => false

/-- Arrays. -/
def Value.isArray : Value → Bool
  | .array .. => true
  | _ => false

/-- Holding neither entries nor items nor characters. -/
def Value.isEmptyObject : Value → Bool
  | .object _ entries => entries.isEmpty
  | .array _ items => items.isEmpty
  | .text t => t.isEmpty
  | _ => true

/-- The number that `better` prefers among some, an earlier one where it prefers none; no number at all
if one of them is none. -/
def bestNumber (better : Float → Float → Bool) : (best : Float) → List Float → Float
  | best, [] => best
  | best, x :: xs =>
    if Number.isNan x then Number.nan else bestNumber better (if better x best then x else best) xs

/-- What a built-in function answers on a page with the given protocol. -/
def Builtin.call (pageProtocol : String) (arguments : List Value) (b : Builtin) : Value :=
  let first := argumentAt arguments 0
  match b with
  | .trim => .ofChars first.trimmed
  | .encodeHtml => .ofChars (Escape.html first.chars)
  | .encodeEventHtml => .ofChars (Escape.eventHtml first.chars)
  | .encodeUriComponent => .ofChars (Escape.uriComponent first.chars)
  | .replaceUrlProtocol => .ofChars (replaceProtocol pageProtocol.toList first.chars)
  | .forEachArray =>
    .ofChars (joinItems ((argumentAt arguments 1).ifGiven Value.chars defaultJoiner) first)
  | .isArray => .bool first.isArray
  | .isObject => .bool first.isObject
  | .isEmptyObject => .bool first.isEmptyObject
  | .text => .ofChars (arguments.head?.elim [] Value.chars)
  | .number => .number (arguments.head?.elim 0.0 Value.toNumber)
  | .parseInt => .number (Number.ofWhole first.chars (argumentAt arguments 1).toInt)
  | .parseFloat => .number (Number.ofLeading first.chars)
  | .isNan => .bool (Number.isNan first.toNumber)
  | .round => .number (Number.floor (first.toNumber + 0.5))
  | .floor => .number (Number.floor first.toNumber)
  | .ceiling => .number (Number.ceiling first.toNumber)
  | .absolute => .number first.toNumber.abs
  | .minimum =>
    .number (bestNumber (fun x best => x < best) Number.infinity (arguments.map Value.toNumber))
  | .maximum =>
    .number (bestNumber (fun x best => best < x) (-Number.infinity) (arguments.map Value.toNumber))

end Stencil
