/-
Stencil/Builtin/Method.lean

The functions that texts, arrays and numbers have of their own.
-/
import Stencil.Builtin.Call
import Stencil.Text.Case
import Stencil.Text.Position
import Stencil.Value.Equality

namespace Stencil

/-- A position, or -1 if there is none. -/
def positionValue : Option Nat → Value
  | some i => .ofNat i
  | none => .number (-1.0)

/-- The whole number that an argument stands for, if it is given. -/
def Value.toInt? (v : Value) : Option Int := v.ifGiven (fun v => some v.toInt) none

/-- What a text answers when one of its functions is called.  `id` is the identity of an array that is
made. -/
def textMethod? (id : Identity) (cs : List Char) (name : String) (arguments : List Value) :
    Option Value :=
  let first := argumentAt arguments 0
  let second := argumentAt arguments 1
  match name with
  | "toUpperCase" => some (.ofChars (Text.toUpper cs))
  | "toLowerCase" => some (.ofChars (Text.toLower cs))
  | "trim" => some (.ofChars (Text.trimValue cs))
  | "substr" => some (.ofChars (Text.substr first.toInt second.toInt? cs))
  | "substring" => some (.ofChars (Text.substring first.toInt second.toInt? cs))
  | "charAt" => some (.ofChars (Text.slice first.toInt (first.toInt + 1) cs))
  | "indexOf" =>
    let start := Text.clamp second.toInt cs
    some (positionValue ((Text.indexOf? first.chars (cs.drop start)).map (start + ·)))
  | "split" =>
    let separator := first.ifGiven (fun v => some v.chars) none
    some (.array id ((Text.split separator second.toInt? cs).map .ofChars))
  | "replace" => some (.ofChars (Text.replaceFirst first.chars second.chars cs))
  | "toString" => some (.ofChars cs)
  | _ => none

/-- What an array answers when one of its functions is called. -/
def arrayMethod? (items : List Value) (name : String) (arguments : List Value) : Option Value :=
  let first := argumentAt arguments 0
  match name with
  | "join" => some (.ofChars ((first.ifGiven Value.chars [',']).intercalate (Value.itemChars items)))
  | "indexOf" => some (positionValue (items.findIdx? (·.strictEquals first)))
  | _ => none

/-- What a value answers when one of its own functions is called; nothing if it has none of that name.
`id` is the identity of an array that is made. -/
def Value.callMethod? (id : Identity) (v : Value) (name : String) (arguments : List Value) :
    Option Value :=
  match v, name with
  | .text t, name => textMethod? id t.toList name arguments
  | .number x, "toFixed" =>
    some (.ofChars (Number.fixed (min (argumentAt arguments 0).toInt.toNat 100) x))
  | .undefined, _ | .null, _ => none
  | v, "toString" => some (.ofChars v.chars)
  | .array _ items, name => arrayMethod? items name arguments
  | _, _ => none

end Stencil
