/-
Stencil/Value/Entries.lean

What a loop visits.  The items of an array come with their positions; the entries
of an object come with their names, first those whose name is an index, ascending,
then the others in the order in which they were put in.
-/
import Stencil.Number.Reading
import Stencil.Order
import Stencil.Value

namespace Stencil

/-- The index that a property name writes: a decimal without sign and leading zeros, below
`2^32 - 1`. -/
def indexOfKey? (key : String) : Option Nat :=
  (Number.readIndex? key.toList).filter fun n =>
    n < 2 ^ 32 - 1 && Number.digitsOf n = key.toList

/-- The entries of an object in the order in which they are visited. -/
def propertyOrder (entries : Bindings Value) : Bindings Value :=
  let (indexed, named) := entries.partition fun entry => (indexOfKey? entry.1).isSome
  let position (entry : String × Value) : Nat := (indexOfKey? entry.1).getD 0
  sortBy (fun a b => position a ≤ position b) indexed ++ named

/-- The keys and values that a loop over a value visits. -/
def Value.entries : Value → List (Value × Value)
  | .array _ items => items.zipIdx.map fun (item, i) => (.ofNat i, item)
  | .object _ entries => (propertyOrder entries).map fun (key, item) => (.text key, item)
  | _ => []

/-- Hands the entries to `f` one after the other, up to and with the first for which it has an answer. -/
def visitEntries {m : Type → Type} [Monad m] {β : Type} (f : Value → Value → m (Option β)) :
    List (Value × Value) → m (Option β)
  | [] => pure none
  | (key, item) :: rest => do
    match ← f key item with
    | some answer => return some answer
    | none => visitEntries f rest

end Stencil
