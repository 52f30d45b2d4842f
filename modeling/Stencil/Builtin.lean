/-
Stencil/Builtin.lean

The functions that every template can call by name, and those that it finds as
properties of the `Math` object.
-/

namespace Stencil

/-- A built-in function. -/
inductive Builtin where
  | trim
  | encodeHtml
  | encodeEventHtml
  | encodeUriComponent
  | replaceUrlProtocol
  | forEachArray
  | isArray
  | isObject
  | isEmptyObject
  | text
  | number
  | parseInt
  | parseFloat
  | isNan
  | round
  | floor
  | ceiling
  | absolute
  | minimum
  | maximum
deriving DecidableEq, Repr

namespace Builtin

/-- The name of a built-in function in a template. -/
def name : Builtin → String
  | .trim => "trim"
  | .encodeHtml => "encodeHTML"
  | .encodeEventHtml => "encodeEventHTML"
  | .encodeUriComponent => "encodeURIComponent"
  | .replaceUrlProtocol => "replaceUrlProtocol"
  | .forEachArray => "forEachArray"
  | .isArray => "isArray"
  | .isObject => "isObject"
  | .isEmptyObject => "isEmptyObject"
  | .text => "String"
  | .number => "Number"
  | .parseInt => "parseInt"
  | .parseFloat => "parseFloat"
  | .isNan => "isNaN"
  | .round => "round"
  | .floor => "floor"
  | .ceiling => "ceil"
  | .absolute => "abs"
  | .minimum => "min"
  | .maximum => "max"

/-- The functions that are bound to their names. -/
def globals : List Builtin :=
  [.trim, .encodeHtml, .encodeEventHtml, .encodeUriComponent, .replaceUrlProtocol, .forEachArray,
   .isArray, .isObject, .isEmptyObject, .text, .number, .parseInt, .parseFloat, .isNan]

/-- The functions of the `Math` object. -/
def mathematical : List Builtin :=
  [.round, .floor, .ceiling, .absolute, .minimum, .maximum]

/-- The function that is bound to a name. -/
def ofName? (n : String) : Option Builtin := globals.find? (·.name = n)

end Builtin

end Stencil
