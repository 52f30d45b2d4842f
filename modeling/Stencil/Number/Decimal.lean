/-
Stencil/Number/Decimal.lean

Decimals.  `shortest` chooses for a double the decimal with the fewest digits that
still reads back as the same double; `Layout.write` lays such a decimal out,
`fixed` writes a double with a set number of places, and `Numeral.value` is the
double nearest to a numeral that was read.  `numberText` is how the value language
shows its numbers.

The choice of digits.  The reals that round to `m · 2^q` form an interval around
it, whose ends belong to it iff `m` is even.  On the grid of decimals with a given
number of digits, if any point lies in the interval then one of the two
neighbours of the value does; so the first of the grids with 1, 2, … 17 digits on
which a neighbour lies in the interval gives the fewest digits, and the nearer
neighbour is taken, of two equally near ones the larger.
-/
import Stencil.Number.Dyadic

namespace Stencil

namespace Number

/-- The decimal digits of a number, most significant first. -/
def digitsOf (n : Nat) : List Char := Nat.toDigits 10 n

/-- The number that a run of decimal digits writes. -/
def natOfDigits (ds : List Char) : Nat :=
  ds.foldl (fun n d => 10 * n + (d.toNat - '0'.toNat)) 0

/-! ### The fewest digits -/

/-- A positive double `m · 2^q` as the fraction `scaled / unit`, with the numerators `low` and `high` of
the two ends of the interval of reals that round to it over the same denominator. -/
structure Rounded where
  scaled : Nat
  low : Nat
  high : Nat
  unit : Nat
  /-- The ends themselves round to the double. -/
  closed : Bool

/-- The interval around `m · 2^q`, in quarters of the distance to the next double above, which the
denominator counts too.  Below a power of two the next double is only half as far away. -/
def Rounded.of (m : Nat) (q : Int) : Rounded :=
  let up := 2 ^ q.toNat
  let narrow := m = 2 ^ 52 ∧ -1074 < q
  { scaled := 4 * m * up
    low := (if narrow then 4 * m - 1 else 4 * m - 2) * up
    high := (4 * m + 2) * up
    unit := 4 * 2 ^ (-q).toNat
    closed := m % 2 = 0 }

/-- `digits · 10^exponent` rounds to the double. -/
def Rounded.holds (r : Rounded) (digits : Nat) (exponent : Int) : Bool :=
  let d := digits * 10 ^ exponent.toNat * r.unit
  let low := r.low * 10 ^ (-exponent).toNat
  let high := r.high * 10 ^ (-exponent).toNat
  (low < d && d < high) || (r.closed && (low = d || d = high))

/-- The place of the leading digit: the least `k` such that the value is below `10^k`.  Below one, that
is the largest power of ten that is smaller than the reciprocal of the value. -/
def Rounded.place (r : Rounded) : Int :=
  if r.unit ≤ r.scaled then (digitsOf (r.scaled / r.unit)).length
  else 1 - (digitsOf ((r.unit - 1) / r.scaled)).length

/-- The neighbour of the value on the grid of step `10^exponent` that rounds to the double, the nearer
one if both do. -/
def Rounded.onGrid? (r : Rounded) (exponent : Int) : Option Nat :=
  let numerator := r.scaled * 10 ^ (-exponent).toNat
  let denominator := r.unit * 10 ^ exponent.toNat
  let below := numerator / denominator
  let nearerAbove := denominator ≤ 2 * (numerator % denominator)
  match r.holds below exponent, r.holds (below + 1) exponent with
  | true, true => some (if nearerAbove then below + 1 else below)
  | true, false => some below
  | false, true => some (below + 1)
  | false, false => none

/-- Digits and the place of the decimal point in front of, among or behind them: the value is
`0.digits · 10^point`. -/
structure Decimal where
  digits : List Char
  point : Int
deriving DecidableEq, Repr

/-- A decimal from its digits as a number; zeros at the end are dropped. -/
def Decimal.ofNat (digits : Nat) (exponent : Int) : Decimal :=
  let ds := digitsOf digits
  { digits := (ds.reverse.dropWhile (· == '0')).reverse, point := ds.length + exponent }

/-- The decimal with the fewest digits that rounds to the positive double `m · 2^q`. -/
def shortest (m : Nat) (q : Int) : Decimal :=
  let r := Rounded.of m q
  let place := r.place
  let found? := (List.range 17).findSome? fun (more : Nat) =>
    let exponent := place - (more + 1)
    (r.onGrid? exponent).map fun digits => Decimal.ofNat digits exponent
  -- seventeen digits always suffice; the exact value is the answer that needs no such argument
  found?.getD (Decimal.ofNat (m * 2 ^ q.toNat * 5 ^ (-q).toNat) (min q 0))

/-! ### Layout -/

/-- How numbers are written out. -/
structure Layout where
  /-- The exponents of the leading digit for which the digits are written at their places. -/
  positional : Int → Bool
  /-- The word for an infinity. -/
  infinity : List Char

/-- Digits at their places: zeros fill up to the point, and no point is written without digits behind
it. -/
def Decimal.plain (d : Decimal) : List Char :=
  if d.point ≤ 0 then '0' :: '.' :: List.replicate (-d.point).toNat '0' ++ d.digits
  else
    let whole := d.point.toNat
    if d.digits.length ≤ whole then d.digits ++ List.replicate (whole - d.digits.length) '0'
    else d.digits.take whole ++ '.' :: d.digits.drop whole

/-- One digit, the others behind a point, and the exponent with its sign. -/
def Decimal.scientific (d : Decimal) : List Char :=
  let exponent := d.point - 1
  let sign := if exponent < 0 then '-' else '+'
  let mantissa :=
    match d.digits with
    | first :: rest => if rest.isEmpty then [first] else first :: '.' :: rest
    | [] => []
  mantissa ++ 'e' :: sign :: digitsOf exponent.natAbs

/-- Writes a number with the fewest digits that read back; a zero has no sign. -/
def Layout.write (layout : Layout) (x : Float) : List Char :=
  let signed (negative : Bool) (cs : List Char) := if negative then '-' :: cs else cs
  match parts x with
  | .nan => "NaN".toList
  | .infinite negative => signed negative layout.infinity
  | .finite negative m q =>
    if m = 0 then ['0']
    else
      let d := shortest m q
      signed negative (if layout.positional (d.point - 1) then d.plain else d.scientific)

/-! ### A set number of places -/

/-- The whole number nearest to `numerator / denominator`, the even one of two. -/
def divideToEven (numerator denominator : Nat) : Nat :=
  let quotient := numerator / denominator
  let rest := numerator % denominator
  if 2 * rest < denominator then quotient
  else if denominator < 2 * rest then quotient + 1
  else if quotient % 2 = 0 then quotient else quotient + 1

/-- A whole number of units of the last place, written with `places` digits behind the point. -/
def fixedDigits (places units : Nat) : List Char :=
  let ds := digitsOf units
  let padded := List.replicate (places + 1 - ds.length) '0' ++ ds
  let whole := padded.length - places
  if places = 0 then padded else padded.take whole ++ '.' :: padded.drop whole

/-- Writes a number with `places` digits behind the point: its exact value rounded to them, a half to
the even neighbour.  A negative number keeps its sign also where all digits are zero. -/
def fixed (places : Nat) (x : Float) : List Char :=
  let signed (negative : Bool) (cs : List Char) := if negative then '-' :: cs else cs
  match parts x with
  | .nan => "NaN".toList
  | .infinite negative => signed negative "inf".toList
  | .finite negative m q =>
    let units := divideToEven (m * 2 ^ q.toNat * 10 ^ places) (2 ^ (-q).toNat)
    signed negative (fixedDigits places units)

/-! ### Reading -/

/-- A numeral that was read: `± digits · 10^exponent`. -/
structure Numeral where
  negative : Bool
  digits : Nat
  exponent : Int
deriving DecidableEq, Repr

/-- The double nearest to the numeral.  A numeral outside the range of the doubles is not computed
with: from `10^310` on it is infinite, below `10^-330` zero. -/
def Numeral.value (n : Numeral) : Float :=
  let place := ((digitsOf n.digits).length : Int) + n.exponent
  let magnitude :=
    if n.digits = 0 ∨ place < -330 then 0.0
    else if 310 < place then infinity
    else Float.ofScientific n.digits (n.exponent < 0) n.exponent.natAbs
  if n.negative then -magnitude else magnitude

end Number

/-! ### The numbers of the value language -/

/-- Numbers are shown with the fewest digits that read back: at their places from a millionth up to
below `10^21`, otherwise with an exponent. -/
def valueLayout : Number.Layout :=
  { positional := fun e => -6 ≤ e && e < 21, infinity := "Infinity".toList }

/-- The text of a number. -/
def numberText (x : Float) : String := String.ofList (valueLayout.write x)

end Stencil
