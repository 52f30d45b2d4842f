/-
Stencil/Number/Dyadic.lean

What a number of the value language stands for.  Numbers are IEEE doubles; a
finite one is `± m · 2^q` with natural `m`.  Rounding to whole numbers and the
remainder of a division are computed exactly on `m` and `q` and put back together,
so they never round.
-/

namespace Stencil.Number

/-- Powers of natural numbers are the core ones, also where another structure offers its own. -/
@[default_instance 20000]
instance (priority := 20000) natPow : Pow Nat Nat := instPowNat

/-- The three kinds of doubles; a finite one is `m · 2^q`, negated if `negative`. -/
inductive Parts where
  | nan
  | infinite (negative : Bool)
  | finite (negative : Bool) (m : Nat) (q : Int)
deriving DecidableEq, Repr

/-- Takes the bits of a double apart. -/
def parts (x : Float) : Parts :=
  let b : Nat := x.toBits.toNat
  let negative := b / 2 ^ 63 % 2 == 1
  let exponent : Nat := b / 2 ^ 52 % 2 ^ 11
  let fraction : Nat := b % 2 ^ 52
  if exponent = 2047 then
    if fraction = 0 then .infinite negative else .nan
  else if exponent = 0 then .finite negative fraction (-1074)
  else .finite negative (2 ^ 52 + fraction) ((exponent : Int) - 1075)

/-- Puts a sign, an exponent field and a fraction field together. -/
def ofFields (negative : Bool) (exponent fraction : Nat) : Float :=
  Float.ofBits (UInt64.ofNat ((if negative then 2 ^ 63 else 0) + exponent * 2 ^ 52 + fraction))

/-- Positive infinity. -/
def infinity : Float := ofFields false 2047 0

/-- What is no number. -/
def nan : Float := 0.0 / 0.0

/-- The double `± m · 2^q`, for `m` below `2^53` and `q` at least `-1074` such that the value is in
range: these are the doubles themselves, so nothing is rounded. -/
def ofDyadic (negative : Bool) (m : Nat) (q : Int) : Float :=
  if m = 0 then ofFields negative 0 0
  else
    let lift := min (52 - Nat.log2 m) (q + 1074).toNat
    let significand := m * 2 ^ lift
    if significand < 2 ^ 52 then ofFields negative 0 significand
    else ofFields negative (q - lift + 1075).toNat (significand - 2 ^ 52)

/-- A natural number as a double: itself below `2^53`, where every whole number is a double, and the
nearest one above. -/
def ofNat (n : Nat) : Float := if n < 2 ^ 53 then ofDyadic false n 0 else Float.ofNat n

/-- The number is not a number. -/
def isNan (x : Float) : Bool :=
  match parts x with
  | .nan => true
  | _ => false

/-- The number is neither infinite nor no number. -/
def isFinite (x : Float) : Bool :=
  match parts x with
  | .finite .. => true
  | _ => false

/-- How the magnitude of a fraction is made whole. -/
inductive Rounding where
  /-- towards minus infinity -/
  | down
  /-- towards plus infinity -/
  | up
  /-- towards zero -/
  | towardZero
deriving DecidableEq, Repr

/-- Whether the magnitude of a fraction is enlarged to the next whole number. -/
def Rounding.enlarges (r : Rounding) (negative : Bool) : Bool :=
  match r with
  | .down => negative
  | .up => !negative
  | .towardZero => false

/-- The magnitude `m · 2^q` made whole, larger if it is a fraction and `enlarge` says so. -/
def wholeMagnitude (enlarge : Bool) (m : Nat) (q : Int) : Nat :=
  if 0 ≤ q then m * 2 ^ q.toNat
  else
    let unit := 2 ^ (-q).toNat
    m / unit + (if enlarge && m % unit != 0 then 1 else 0)

/-- The number made whole; a result of zero keeps the sign, and what is not finite stays. -/
def round (r : Rounding) (x : Float) : Float :=
  match parts x with
  | .finite negative m q =>
    if 0 ≤ q then x else ofDyadic negative (wholeMagnitude (r.enlarges negative) m q) 0
  | _ => x

/-- The greatest whole number that is not above `x`. -/
def floor (x : Float) : Float := round .down x

/-- The least whole number that is not below `x`. -/
def ceiling (x : Float) : Float := round .up x

/-- A bound above the magnitude of every finite double. -/
def beyond : Nat := 2 ^ 1024

/-- The number as an integer, towards zero: what is no number counts as zero, an infinity lies beyond
every finite number. -/
def toInt (x : Float) : Int :=
  let signed (negative : Bool) (n : Nat) : Int := if negative then -(n : Int) else n
  match parts x with
  | .nan => 0
  | .infinite negative => signed negative beyond
  | .finite negative m q => signed negative (wholeMagnitude false m q)

/-- The remainder of the division of `x` by `y`, with the sign of `x`: what is left of `x` when `y` is
taken away as often as it fits. -/
def remainder (x y : Float) : Float :=
  match parts x, parts y with
  | .finite negative m q, .finite _ n r =>
    if n = 0 then nan
    else
      let unit := min q r
      ofDyadic negative (m * 2 ^ (q - unit).toNat % (n * 2 ^ (r - unit).toNat)) unit
  | .finite .., .infinite _ => x
  | _, _ => nan

end Stencil.Number
