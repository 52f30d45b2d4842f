/-
Stencil/Value.lean

The loosely typed values that templates work with.  Arrays and objects have an
identity beside what they hold, because two of them that hold the same are still
told apart by the strict comparison.
-/
import Stencil.Bindings
import Stencil.Builtin
import Stencil.Number.Dyadic

namespace Stencil

/-- What tells arrays and objects apart. -/
inductive Identity where
  /-- It came with the context of a render. -/
  | given (number : Nat)
  /-- An expression or a function of the host made it during a render. -/
  | made (number : Nat)
  /-- It is the `Math` object. -/
  | math
deriving DecidableEq, Repr, Inhabited

/-- A function that templates can call. -/
inductive Function where
  | builtin (function : Builtin)
  /-- A function that the host put into the context. -/
  | host (name : String)
deriving DecidableEq, Repr

/-- The name of a function. -/
def Function.name : Function → String
  | .builtin function => function.name
  | .host name => name

/-- A value. -/
inductive Value where
  | undefined
  | null
  | bool (value : Bool)
  | number (value : Float)
  | text (value : String)
  | array (id : Identity) (items : List Value)
  /-- The names of the entries differ from one another. -/
  | object (id : Identity) (entries : List (String × Value))
  | function (function : Function)
deriving Inhabited

namespace Value

/-- The value that a template sees where nothing is bound, or the empty one: every output form writes
nothing for it. -/
def isNullish : Value → Bool
  | .undefined | .null => true
  | _ => false

/-- A natural number as a value. -/
def ofNat (n : Nat) : Value := .number (Number.ofNat n)

/-- Characters as a value. -/
def ofChars (cs : List Char) : Value := .text (String.ofList cs)

/-- The `Math` object. -/
def math : Value :=
  .object .math (Builtin.mathematical.map fun b => (b.name, .function (.builtin b)))

/-- What a name stands for that nothing binds. -/
def ofBuiltinName? (name : String) : Option Value :=
  if name = "Math" then some math
  else (Builtin.ofName? name).map fun b => .function (.builtin b)

end Value

end Stencil
