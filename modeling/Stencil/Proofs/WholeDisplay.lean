/-
Stencil/Proofs/WholeDisplay.lean

How whole numbers below `2^53` are shown: by their decimal digits.

Such a number `n` stands as `significand n · 2^(-lift n)` in its double.  The reals that
round to it reach at most a half to either side, so the only whole number among them is
`n` itself (`holds_iff`).  On a grid of whole numbers the search for the fewest digits
finds nothing, then, unless `n` lies on the grid, and the grid of all whole numbers is one
of those that are tried (`exists_shortest`).  Dropping the zeros at the end of the digits
and filling them up again to the decimal point gives the digits of `n` (`plain_ofNat`).

The main results are `write_ofNat` and, for values, `display_ofNat`.
-/
import Stencil.Proofs.Lexing
import Stencil.Value.Coercion

namespace Stencil.Number

variable {n d e : Nat}

/-! ### Digits -/

theorem digit_lt_ten {c : Char} (hc : isDecimalDigit c = true) : c.toNat - '0'.toNat < 10 := by
  obtain ⟨hlo, hhi⟩ := isDecimalDigit_iff.mp hc
  show c.toNat - 48 < 10
  omega

/-- The decimal of what a digit stands for is the digit. -/
theorem digitsOf_digit {c : Char} (hc : isDecimalDigit c = true) :
    digitsOf (c.toNat - '0'.toNat) = [c] := by
  obtain ⟨hlo, hhi⟩ := isDecimalDigit_iff.mp hc
  rw [digitsOf, Nat.toDigits_of_lt_base (digit_lt_ten hc)]
  congr 1
  rw [← Char.toNat_inj, Nat.toNat_digitChar_of_lt_ten (digit_lt_ten hc)]
  show 48 + (c.toNat - 48) = c.toNat
  omega

/-- One digit more. -/
theorem digitsOf_concat {c : Char} (hpos : 0 < n) (hc : isDecimalDigit c = true) :
    digitsOf (10 * n + (c.toNat - '0'.toNat)) = digitsOf n ++ [c] := by
  have happend := Nat.toDigits_append_toDigits (b := 10) (by decide) hpos (digit_lt_ten hc)
  rw [← digitsOf_digit hc]
  exact happend.symm

theorem digitsOf_mul_ten_pow (hpos : 0 < n) (e : Nat) :
    digitsOf (n * 10 ^ e) = digitsOf n ++ List.replicate e '0' := by
  induction e with
  | zero => simp
  | succ e ih =>
    have hpower : n * 10 ^ (e + 1) = 10 * (n * 10 ^ e) + ('0'.toNat - '0'.toNat) := by
      rw [Nat.pow_succ, Nat.sub_self]
      ring
    rw [hpower, digitsOf_concat (Nat.mul_pos hpos (Nat.pow_pos (by decide))) rfl, ih,
      List.append_assoc, List.replicate_succ']

/-- What is dropped from the end of some digits are zeros. -/
theorem exists_dropped (ds : List Char) :
    ∃ k, ds = (ds.reverse.dropWhile (· == '0')).reverse ++ List.replicate k '0' := by
  have hsplit := List.takeWhile_append_dropWhile (p := (· == '0')) (l := ds.reverse)
  have hzeros : ds.reverse.takeWhile (· == '0') =
      List.replicate (ds.reverse.takeWhile (· == '0')).length '0' :=
    List.eq_replicate_of_mem fun c hc => by simpa using List.mem_takeWhile_imp hc
  refine ⟨(ds.reverse.takeWhile (· == '0')).length, ?_⟩
  have hreverse := congrArg List.reverse hsplit
  rw [List.reverse_append, List.reverse_reverse, hzeros, List.reverse_replicate] at hreverse
  exact hreverse.symm

/-- A whole number of units of a place left of the point is written with zeros up to the point. -/
theorem plain_ofNat (hpos : 0 < d) (e : Nat) : (Decimal.ofNat d e).plain = digitsOf (d * 10 ^ e) := by
  obtain ⟨k, hk⟩ := exists_dropped (digitsOf d)
  have hlength := congrArg List.length hk
  rw [List.length_append, List.length_replicate] at hlength
  have hne : 0 < (digitsOf d).length := List.length_pos_iff.mpr Nat.toDigits_ne_nil
  have hpoint : ¬ ((digitsOf d).length + e : Int) ≤ 0 := by omega
  have hwhole : ((digitsOf d).length + e : Int).toNat = (digitsOf d).length + e := by omega
  have hfilled : (digitsOf d).length + e - ((digitsOf d).reverse.dropWhile (· == '0')).reverse.length =
      k + e := by omega
  rw [Decimal.plain, Decimal.ofNat]
  simp only [if_neg hpoint, hwhole, hfilled]
  rw [if_pos (by omega), List.replicate_add, ← List.append_assoc, ← hk, digitsOf_mul_ten_pow hpos]

/-! ### The interval of a whole number -/

/-- The reals that round to the double of `n`. -/
def around (n : Nat) : Rounded := Rounded.of (significand n) (-lift n)

theorem around_unit (n : Nat) : (around n).unit = 4 * 2 ^ lift n := by
  have hexponent : (-(-(lift n : Int))).toNat = lift n := by omega
  simp only [around, Rounded.of, hexponent]

theorem four_le_unit (n : Nat) : 4 ≤ (around n).unit := by
  rw [around_unit]
  exact Nat.le_mul_of_pos_right 4 (Nat.pow_pos (by decide))

theorem around_scaled (n : Nat) : (around n).scaled = n * (around n).unit := by
  have hup : (-(lift n : Int)).toNat = 0 := by omega
  rw [around_unit]
  simp only [around, Rounded.of, hup, significand]
  ring

theorem around_high (n : Nat) : (around n).high = (around n).scaled + 2 := by
  have hup : (-(lift n : Int)).toNat = 0 := by omega
  simp only [around, Rounded.of, hup]
  ring

theorem around_low (hpos : 0 < n) :
    (around n).low < (around n).scaled ∧ (around n).scaled ≤ (around n).low + 2 := by
  have hup : (-(lift n : Int)).toNat = 0 := by omega
  have hsignificand := significand_pos hpos
  simp only [around, Rounded.of, hup]
  split <;> omega

/-- Of the whole numbers only `n` itself rounds to its double: the next ones are at least twice as far
away as the ends of the interval. -/
theorem holds_iff (hpos : 0 < n) (d e : Nat) : (around n).holds d e = true ↔ d * 10 ^ e = n := by
  obtain ⟨hlow, hscaled⟩ := around_low hpos
  have hhigh := around_high n
  have hunit := four_le_unit n
  have hzero : (-(e : Int)).toNat = 0 := by omega
  have hvalue : (around n).scaled = n * (around n).unit := around_scaled n
  simp only [Rounded.holds, Int.toNat_natCast, hzero, Nat.pow_zero, Nat.mul_one, Bool.or_eq_true,
    Bool.and_eq_true, decide_eq_true_iff]
  generalize d * 10 ^ e = w
  constructor
  · intro h
    have hbetween : (around n).low ≤ w * (around n).unit ∧ w * (around n).unit ≤ (around n).high := by
      omega
    -- a whole number below or above `n` is a step of one away from it
    rcases Nat.lt_trichotomy w n with hless | heq | hmore
    · have hstep := Nat.mul_le_mul_right (around n).unit hless
      rw [Nat.succ_mul] at hstep
      omega
    · exact heq
    · have hstep := Nat.mul_le_mul_right (around n).unit hmore
      rw [Nat.succ_mul] at hstep
      omega
  · rintro rfl
    omega

/-! ### The fewest digits -/

/-- A grid of whole numbers holds `n`, or nothing that rounds to its double. -/
theorem onGrid?_around (hpos : 0 < n) (e : Nat) :
    (around n).onGrid? e = if 10 ^ e ∣ n then some (n / 10 ^ e) else none := by
  have hunit : 0 < (around n).unit := Nat.lt_of_lt_of_le (by decide) (four_le_unit n)
  have hzero : (-(e : Int)).toNat = 0 := by omega
  have hbelow : (around n).scaled / ((around n).unit * 10 ^ e) = n / 10 ^ e := by
    rw [around_scaled, Nat.mul_comm n, Nat.mul_div_mul_left _ _ hunit]
  have habove : (around n).holds (n / 10 ^ e + 1) e = false := by
    refine Bool.eq_false_iff.mpr fun hholds => ?_
    have heq := (holds_iff hpos _ e).mp hholds
    have hlt := Nat.lt_mul_div_succ n (show 0 < 10 ^ e from Nat.pow_pos (by decide))
    rw [Nat.mul_comm, heq] at hlt
    exact Nat.lt_irrefl n hlt
  have hdivides : (around n).holds (n / 10 ^ e) e = decide (10 ^ e ∣ n) := by
    rw [Bool.eq_iff_iff, holds_iff hpos, decide_eq_true_iff]
    exact ⟨fun heq => ⟨n / 10 ^ e, by rw [Nat.mul_comm, heq]⟩, Nat.div_mul_cancel⟩
  simp only [Rounded.onGrid?, Int.toNat_natCast, hzero, Nat.pow_zero, Nat.mul_one, hbelow, habove,
    hdivides]
  by_cases hmem : 10 ^ e ∣ n <;> simp [hmem]

theorem place_around (hpos : 0 < n) : (around n).place = (digitsOf n).length := by
  have hunit : 0 < (around n).unit := Nat.lt_of_lt_of_le (by decide) (four_le_unit n)
  rw [Rounded.place, around_scaled, if_pos (Nat.le_mul_of_pos_left _ hpos),
    Nat.mul_div_cancel _ hunit]

/-- The decimal that is tried with the given number of digits behind the first. -/
def attempt? (n more : Nat) : Option Decimal :=
  ((around n).onGrid? ((around n).place - (more + 1))).map fun digits =>
    Decimal.ofNat digits ((around n).place - (more + 1))

theorem attempt?_eq (hpos : 0 < n) {more : Nat} (hmore : more < (digitsOf n).length) :
    let e := (digitsOf n).length - (more + 1)
    attempt? n more = if 10 ^ e ∣ n then some (Decimal.ofNat (n / 10 ^ e) e) else none := by
  intro e
  have hexponent : (around n).place - ((more : Int) + 1) = e := by
    rw [place_around hpos]
    omega
  rw [attempt?, hexponent, onGrid?_around hpos]
  split <;> rfl

/-- The decimal that is chosen for `n` is `n` on some grid of whole numbers. -/
theorem exists_shortest (hpos : 0 < n) (h : n < 2 ^ 53) :
    ∃ d e : Nat, d * 10 ^ e = n ∧ shortest (significand n) (-lift n) = Decimal.ofNat d e := by
  have hlength := length_digitsOf_le h
  have hne : 0 < (digitsOf n).length := List.length_pos_iff.mpr Nat.toDigits_ne_nil
  -- the grid of all whole numbers is reached at the latest
  have hlast : attempt? n ((digitsOf n).length - 1) = some (Decimal.ofNat n 0) := by
    rw [attempt?_eq hpos (by omega), Nat.sub_add_cancel hne, Nat.sub_self]
    simp
  obtain ⟨decimal, hfound⟩ : ∃ decimal,
      (List.range (digitsOf n).length).findSome? (attempt? n) = some decimal := by
    rw [← Option.isSome_iff_exists, List.isSome_findSome?, List.any_eq_true]
    exact ⟨_, List.mem_range.mpr (Nat.sub_lt hne Nat.one_pos), by rw [hlast]; rfl⟩
  have hshortest : shortest (significand n) (-lift n) = decimal := by
    have hrange : 17 = (digitsOf n).length + (17 - (digitsOf n).length) := by omega
    show ((List.range 17).findSome? (attempt? n)).getD _ = decimal
    rw [hrange, List.range_add, List.findSome?_append, hfound]
    rfl
  obtain ⟨more, hmore, hattempt⟩ := List.exists_of_findSome?_eq_some hfound
  rw [attempt?_eq hpos (List.mem_range.mp hmore)] at hattempt
  split at hattempt
  · next hdvd =>
    refine ⟨_, _, Nat.div_mul_cancel hdvd, ?_⟩
    rw [hshortest]
    exact (Option.some.inj hattempt).symm
  · cases hattempt

/-- **A whole number below `2^53` is shown by its digits.** -/
theorem write_ofNat (h : n < 2 ^ 53) : valueLayout.write (Number.ofNat n) = digitsOf n := by
  rcases Nat.eq_zero_or_pos n with rfl | hpos
  · rw [Layout.write, parts_zero]
    exact if_pos rfl
  · obtain ⟨d, e, rfl, hshortest⟩ := exists_shortest hpos h
    have hd : 0 < d := Nat.pos_of_mul_pos_right hpos
    -- sixteen digits at most are written at their places
    have hplace : valueLayout.positional ((Decimal.ofNat d e).point - 1) = true := by
      have hlength := length_digitsOf_le h
      rw [digitsOf_mul_ten_pow hd, List.length_append, List.length_replicate] at hlength
      simp only [valueLayout, Decimal.ofNat, Bool.and_eq_true, decide_eq_true_iff]
      omega
    rw [Layout.write, parts_ofNat hpos h]
    simp only [hshortest, hplace]
    rw [if_neg (Nat.ne_of_gt (significand_pos hpos)), if_neg Bool.false_ne_true, if_pos trivial,
      plain_ofNat hd]

end Stencil.Number

namespace Stencil.Value

variable {n : Nat}

theorem chars_ofNat (h : n < 2 ^ 53) : (Value.ofNat n).chars = Number.digitsOf n :=
  Number.write_ofNat h

/-- The text of a position. -/
theorem display_ofNat (h : n < 2 ^ 53) : (Value.ofNat n).display = Nat.repr n := by
  rw [display, chars_ofNat h]
  rfl

end Stencil.Value
