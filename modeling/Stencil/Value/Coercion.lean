/-
Stencil/Value/Coercion.lean

Values as truth values, texts and numbers, and the operations that rest on these:
reading a property, addition and order.
-/
import Stencil.Number.Decimal
import Stencil.Number.Reading
import Stencil.Value

namespace Stencil.Value

/-- The kind of a value, as a template can ask for it. -/
def typeOf : Value → String
  | .undefined => "undefined"
  | .null | .array .. | .object .. => "object"
  | .bool _ => "boolean"
  | .number _ => "number"
  | .text _ => "string"
  | .function _ => "function"

/-- Whether a condition with this value holds. -/
def isTruthy : Value → Bool
  | .undefined | .null => false
  | .bool b => b
  | .number x => x != 0.0 && !Number.isNan x
  | .text t => !t.isEmpty
  | .array .. | .object .. | .function _ => true

/-! ### Text -/

mutual

/-- The characters of the text of a value. -/
def chars : Value → List Char
  | .undefined => "undefined".toList
  | .null => "null".toList
  | .bool true => "true".toList
  | .bool false => "false".toList
  | .number x => valueLayout.write x
  | .text t => t.toList
  | .array _ items => [','].intercalate (itemChars items)
  | .object .. => "[object Object]".toList
  | .function f => "function ".toList ++ f.name.toList ++ "() \x7b [native code] \x7d".toList

/-- The texts of the items of an array; an item without a value is the empty text. -/
def itemChars : List Value → List (List Char)
  | [] => []
  | item :: items => (if item.isNullish then [] else item.chars) :: itemChars items

end

theorem chars_array (id : Identity) (items : List Value) :
    (array id items).chars = [','].intercalate (itemChars items) :=
  rfl

theorem itemChars_nil : itemChars [] = [] := rfl

theorem itemChars_cons (item : Value) (items : List Value) :
    itemChars (item :: items) = (if item.isNullish then [] else item.chars) :: itemChars items :=
  rfl

/-- The text of a value. -/
def display (v : Value) : String := String.ofList v.chars

/-! ### Number -/

/-- The number that a value stands for.  An array stands for one only if it has at most one item. -/
def toNumber : Value → Float
  | .undefined | .object .. | .function _ => Number.nan
  | .null => 0.0
  | .bool b => if b then 1.0 else 0.0
  | .number x => x
  | .text t => Number.ofText t.toList
  | .array _ [] => 0.0
  | .array _ [item] => Number.ofText item.chars
  | .array _ _ => Number.nan

/-- The whole number that a value stands for, towards zero. -/
def toInt (v : Value) : Int := Number.toInt v.toNumber

/-! ### Properties -/

/-- The property of a value with the given name, if it has one. -/
def member? (v : Value) (key : String) : Option Value :=
  match v with
  | .object _ entries => entries.lookup key
  | .array _ items =>
    if key = "length" then some (ofNat items.length)
    else (Number.readIndex? key.toList).bind fun i => items[i]?
  | .text t =>
    if key = "length" then some (ofNat t.toList.length)
    else (Number.readIndex? key.toList).bind fun i => t.toList[i]?.map fun c => ofChars [c]
  | _ => none

/-! ### Addition and order -/

/-- Addition with this value puts texts together. -/
def concatenates : Value → Bool
  | .text _ | .array .. | .object .. | .function _ => true
  | _ => false

/-- The sum of two numbers, or two texts put together. -/
def add (a b : Value) : Value :=
  if a.concatenates || b.concatenates then ofChars (a.chars ++ b.chars)
  else .number (a.toNumber + b.toNumber)

/-- The order of two numbers; what is no number has none. -/
def orderNumbers? (x y : Float) : Option Ordering :=
  if x < y then some .lt else if y < x then some .gt else if x == y then some .eq else none

/-- The order of two values: of texts by their characters, of all others by their numbers. -/
def order? (a b : Value) : Option Ordering :=
  match a, b with
  | .text s, .text t => some (compareOfLessAndEq s t)
  | _, _ => orderNumbers? a.toNumber b.toNumber

end Stencil.Value
