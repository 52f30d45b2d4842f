/-
Stencil/Value/Equality.lean

The three ways of comparing values.  The strict one tells arrays and objects apart
by identity, the loose one brings both sides to numbers or texts first, and the
structural one looks at what arrays and objects hold.
-/
import Stencil.Value.Coercion

namespace Stencil.Value

/-- Equal and of one kind; arrays and objects are equal only to themselves, and a function is known by
its name. -/
def strictEquals : Value → Value → Bool
  | .undefined, .undefined => true
  | .null, .null => true
  | .bool a, .bool b => a == b
  | .number x, .number y => x == y
  | .text s, .text t => s == t
  | .array i _, .array j _ => i == j
  | .object i _, .object j _ => i == j
  | .function f, .function g => f.name == g.name
  | _, _ => false

/-- Equal after both sides were brought to one kind: truth values to numbers, arrays and objects to
texts, and a text beside a number to a number. -/
def looseEquals (a b : Value) : Bool :=
  if a.isNullish || b.isNullish then a.isNullish && b.isNullish
  else
    match a, b with
    | .bool _, _ | _, .bool _ => a.toNumber == b.toNumber
    | .number _, .text _ | .text _, .number _ => a.toNumber == b.toNumber
    | .array .., .number y | .object .., .number y => Number.ofText a.chars == y
    | .number x, .array .. | .number x, .object .. => x == Number.ofText b.chars
    | .array .., .text t | .object .., .text t => a.chars == t.toList
    | .text s, .array .. | .text s, .object .. => s.toList == b.chars
    | _, _ => a.strictEquals b

mutual

/-- Holding the same: arrays item by item, objects entry by entry in any order, all else strictly. -/
def same : Value → Value → Bool
  | .array _ items, .array _ others => sameItems items others
  | .object _ entries, .object _ others =>
    entries.length == others.length && sameEntries entries others
  | a, b => a.strictEquals b

/-- Two lists of values hold the same, one by one. -/
def sameItems : List Value → List Value → Bool
  | [], [] => true
  | a :: as, b :: bs => a.same b && sameItems as bs
  | _, _ => false

/-- Every entry of the first list has an entry of the same name and value in the second. -/
def sameEntries : List (String × Value) → List (String × Value) → Bool
  | [], _ => true
  | (key, a) :: entries, others =>
    (match others.lookup key with
      | some b => a.same b
      | none => false) && sameEntries entries others

end

end Stencil.Value
