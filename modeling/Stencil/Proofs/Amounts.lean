/-
Stencil/Proofs/Amounts.lean

Amounts of money.  An amount is written by the money form with two digits behind the point,
and a zero without a sign: whatever is not zero behind the division by a hundred is not less
than the hundred and twenty-eighth part of one, so it is not rounded away either.

The main result, `moneyText_isAmount`, says of all values what is written: nothing where there
is no finite number, and an amount exactly where the hundredfold of the number is below what
is rounded to an infinity.  From there on the word for an infinity is written.
-/
import Mathlib
import Stencil.Output
import Stencil.Proofs.DoubleRounding
import Stencil.Proofs.Elements

namespace Stencil

open Float.Model Float.Model.UnpackedFloat

/-- A minus sign or none, digits, a point and two digits. -/
def IsAmount (text : List Char) : Prop :=
  ∃ sign whole c d, text = sign ++ whole ++ ['.', c, d] ∧ (sign = [] ∨ sign = ['-']) ∧ whole ≠ [] ∧
    ∀ digit ∈ whole ++ [c, d], digit.isDigit = true

theorem IsAmount.ne_nil {text : List Char} (h : IsAmount text) : text ≠ [] := by
  obtain ⟨sign, whole, c, d, rfl, -⟩ := h
  exact List.append_ne_nil_of_right_ne_nil _ (List.cons_ne_nil _ _)

namespace Number

variable {m : Nat} {q : Int} {x : Float} {negative : Bool}

/-! ### Two places -/

/-- The digits of a number of hundredths, with zeros up to the place of the ones. -/
def centDigits (units : Nat) : List Char :=
  List.replicate (3 - (digitsOf units).length) '0' ++ digitsOf units

theorem three_le_length_centDigits (units : Nat) : 3 ≤ (centDigits units).length := by
  rw [centDigits, List.length_append, List.length_replicate]
  omega

theorem fixedDigits_two (units : Nat) :
    fixedDigits 2 units = (centDigits units).take ((centDigits units).length - 2) ++
      '.' :: (centDigits units).drop ((centDigits units).length - 2) :=
  rfl

theorem isDigit_of_mem_centDigits {units : Nat} {c : Char} (h : c ∈ centDigits units) :
    c.isDigit = true := by
  rcases List.mem_append.mp h with h | h
  · rw [List.eq_of_mem_replicate h]
    rfl
  · exact Nat.isDigit_of_mem_toDigits (by decide) (by decide) h

theorem isAmount_fixedDigits (sign : Bool) (units : Nat) :
    IsAmount ((if sign then ['-'] else []) ++ fixedDigits 2 units) := by
  have hlength := three_le_length_centDigits units
  have hcents : ((centDigits units).drop ((centDigits units).length - 2)).length = 2 := by
    rw [List.length_drop]
    omega
  obtain ⟨c, d, hcd⟩ := List.length_eq_two.mp hcents
  have hsplit := List.take_append_drop ((centDigits units).length - 2) (centDigits units)
  rw [hcd] at hsplit
  refine ⟨if sign then ['-'] else [], (centDigits units).take ((centDigits units).length - 2), c, d,
    ?_, ?_, ?_, ?_⟩
  · rw [fixedDigits_two, hcd, List.append_assoc]
  · cases sign
    · exact .inl rfl
    · exact .inr rfl
  · exact List.ne_nil_of_length_pos (by rw [List.length_take]; omega)
  · rw [hsplit]
    exact fun digit => isDigit_of_mem_centDigits

theorem minus_notMem_fixedDigits_two (units : Nat) : '-' ∉ fixedDigits 2 units := by
  intro h
  have hdigit : '-' ∈ centDigits units → False := fun hmem =>
    absurd (isDigit_of_mem_centDigits hmem) (by decide)
  rw [fixedDigits_two, List.mem_append, List.mem_cons] at h
  rcases h with h | h | h
  · exact hdigit (List.mem_of_mem_take h)
  · cases h
  · exact hdigit (List.mem_of_mem_drop h)

/-- No hundredths are written like zero but zero. -/
theorem eq_zero_of_fixedDigits {units : Nat} (h : fixedDigits 2 units = "0.00".toList) : units = 0 := by
  have hlength := three_le_length_centDigits units
  have htake : ((centDigits units).take ((centDigits units).length - 2)).length = 1 := by
    have hwhole := congrArg List.length h
    rw [fixedDigits_two, List.length_append, List.length_cons, List.length_drop] at hwhole
    change _ = 4 at hwhole
    omega
  rw [fixedDigits_two] at h
  obtain ⟨hfront, hback⟩ := List.append_inj (show _ ++ _ = ['0'] ++ ['.', '0', '0'] from h) htake
  have hdigits : centDigits units = ['0', '0', '0'] := by
    rw [← List.take_append_drop ((centDigits units).length - 2) (centDigits units), hfront,
      (List.cons.inj hback).2]
    rfl
  have hvalue := natOfDigits_zeros (3 - (digitsOf units).length) (digitsOf units)
  rw [← centDigits, hdigits, natOfDigits_digitsOf] at hvalue
  exact hvalue.symm

theorem divideToEven_zero (denominator : Nat) : divideToEven 0 denominator = 0 := by
  simp [divideToEven]

/-- What is more than half of one is not rounded to zero. -/
theorem divideToEven_pos {numerator denominator : Nat} (h : denominator < 2 * numerator) :
    0 < divideToEven numerator denominator := by
  have hsplit := Nat.div_add_mod numerator denominator
  rw [divideToEven]
  generalize numerator / denominator = quotient at hsplit ⊢
  rcases Nat.eq_zero_or_pos quotient with rfl | hquotient
  · -- all of it is the rest
    rw [Nat.mul_zero, Nat.zero_add] at hsplit
    rw [if_neg (by omega), if_pos (by omega)]
    exact Nat.succ_pos 0
  · split_ifs <;> omega

/-- What is not less than the hundred and twenty-eighth part of one has hundredths. -/
theorem hundredths_pos (hm : 2 ^ 52 ≤ m) (hq : -59 ≤ q) :
    0 < divideToEven (m * 2 ^ q.toNat * 10 ^ 2) (2 ^ (-q).toNat) := by
  have hunit : 2 ^ (-q).toNat ≤ 2 ^ 59 := Nat.pow_le_pow_right (by decide) (by omega)
  have hscale := Nat.two_pow_pos q.toNat
  have hwhole : 2 ^ 52 * 1 ≤ m * 2 ^ q.toNat := Nat.mul_le_mul hm hscale
  exact divideToEven_pos (by omega)

/-! ### Whole hundredths -/

theorem beq_zero (h : parts x = .finite negative 0 q) : (x == 0.0) = true := by
  obtain ⟨s, -, ⟨-, hu⟩ | ⟨hpos, -⟩⟩ := unpack_of_parts h
  · show Float.Model.beq x.toModel _ = true
    rw [Float.Model.beq, hu]
    cases s <;> rfl
  · exact absurd hpos (Nat.lt_irrefl 0)

theorem infinite_beq_zero (h : parts x = .infinite negative) : (x == 0.0) = false := by
  obtain ⟨s, -, hu⟩ := unpack_of_infinite h
  show Float.Model.beq x.toModel _ = false
  rw [Float.Model.beq, hu]
  cases s <;> rfl

/-- The number rounded to whole hundredths, a half up. -/
def toHundredths (x : Float) : Float := floor (x * 100.0 + 0.5) / 100.0

/-- As long as the hundredfold does not overflow, the number of whole hundredths is finite: a zero, or not
less than the hundred and twenty-eighth part of one. -/
theorem parts_toHundredths_of_lt (h : parts x = .finite negative m q)
    (hlt : m * (100 * 2 ^ 46) < overflowMantissa (q - 46)) :
    ∃ sign r e, parts (toHundredths x) = .finite sign r e ∧ (r ≠ 0 → 2 ^ 52 ≤ r ∧ -59 ≤ e) := by
  obtain ⟨_, _, hscaled⟩ := (parts_mul_hundred h).1 hlt
  obtain ⟨_, _, _, hraised⟩ := parts_add_half hscaled
  obtain ⟨sign, _, _, hwhole, hbits⟩ := parts_floor hraised
  obtain ⟨r, e, hamount, -, hlarge⟩ := parts_div_hundred hwhole hbits
  exact ⟨sign, r, e, hamount, hlarge⟩

theorem parts_toHundredths_of_le (h : parts x = .finite negative m q)
    (hle : overflowMantissa (q - 46) ≤ m * (100 * 2 ^ 46)) :
    parts (toHundredths x) = .infinite negative := by
  have hscaled := (parts_mul_hundred h).2 hle
  have hraised := (parts_of_infinite hscaled).1
  have hwhole := (parts_of_infinite hraised).2.1
  exact (parts_of_infinite hwhole).2.2

/-- The bound for the bits of the hundredfold is one for its value. -/
theorem hundredfold_lt_iff (h : parts x = .finite negative m q) :
    m * (100 * 2 ^ 46) < overflowMantissa (q - 46) ↔
      100 * ((m : ℚ) * 2 ^ q) < 2 ^ 1024 - 2 ^ 970 := by
  have hhigh := (fits_of_parts h).high
  have hscale : ((m * (100 * 2 ^ 46) : Nat) : ℚ) * 2 ^ (q - 46) = 100 * ((m : ℚ) * 2 ^ q) := by
    rw [zpow_sub₀ (by norm_num : (2 : ℚ) ≠ 0)]
    push_cast
    ring
  rw [lt_overflowMantissa_iff (by omega), hscale]

/-! ### What is written -/

theorem fixed_two_of_parts (h : parts x = .finite negative m q) :
    fixed 2 x = (if negative then ['-'] else []) ++
      fixedDigits 2 (divideToEven (m * 2 ^ q.toNat * 10 ^ 2) (2 ^ (-q).toNat)) := by
  rw [fixed, h]
  cases negative <;> rfl

/-- Two places are written behind digits, and a zero has no sign. -/
theorem isAmount_fixed {sign : Bool} {r : Nat} {e : Int} (h : parts x = .finite sign r e)
    (hlarge : r ≠ 0 → 2 ^ 52 ≤ r ∧ -59 ≤ e) :
    let written := fixed 2 (if x == 0.0 then 0.0 else x)
    IsAmount written ∧ written ≠ "-0.00".toList := by
  intro written
  by_cases hzero : (x == 0.0) = true
  · have hparts : parts 0.0 = .finite false 0 (-1074) := rfl
    have hwritten : written = "0.00".toList := by
      show fixed 2 _ = _
      rw [if_pos hzero, fixed_two_of_parts hparts, Nat.zero_mul, Nat.zero_mul, divideToEven_zero]
      rfl
    rw [hwritten]
    exact ⟨isAmount_fixedDigits false 0, by decide⟩
  · have hwritten : written = (if sign then ['-'] else []) ++
        fixedDigits 2 (divideToEven (r * 2 ^ e.toNat * 10 ^ 2) (2 ^ (-e).toNat)) := by
      show fixed 2 _ = _
      rw [if_neg hzero, fixed_two_of_parts h]
    have hne : r ≠ 0 := fun hr => hzero (beq_zero (hr ▸ h))
    obtain ⟨hr, he⟩ := hlarge hne
    have hpos := hundredths_pos hr he
    rw [hwritten]
    refine ⟨isAmount_fixedDigits sign _, fun hminus => ?_⟩
    cases sign with
    | false =>
      have hmem : '-' ∈ "-0.00".toList := List.mem_cons_self
      rw [← hminus] at hmem
      exact minus_notMem_fixedDigits_two _ hmem
    | true =>
      -- only zero has the digits `0.00`, and what is left has hundredths
      have hdigits := eq_zero_of_fixedDigits (List.cons.inj hminus).2
      exact Nat.ne_of_gt hpos hdigits

end Number

/-! ### Amounts -/

theorem moneyText_of_finite {v : Value} {negative : Bool} {m : Nat} {q : Int}
    (h : Number.parts v.toNumber = .finite negative m q) :
    let amount := Number.toHundredths v.toNumber
    moneyText v = Number.fixed 2 (if amount == 0.0 then 0.0 else amount) := by
  have hfinite : Number.isFinite v.toNumber = true := by rw [Number.isFinite, h]
  rw [moneyText]
  exact if_pos hfinite

/-- **What is written as an amount of money.**  Nothing is written exactly for what is no finite number.
A finite number gives an amount, and a zero without a sign, as long as its hundredfold is below the
middle between the largest double and the next power of two; from there on the hundredfold overflows, and
the word for an infinity is written. -/
theorem moneyText_isAmount (v : Value) :
    (moneyText v = [] ↔ Number.isFinite v.toNumber = false) ∧
    ∀ negative m q, Number.parts v.toNumber = .finite negative m q →
      (100 * ((m : ℚ) * 2 ^ q) < 2 ^ 1024 - 2 ^ 970 →
        IsAmount (moneyText v) ∧ moneyText v ≠ "-0.00".toList) ∧
      (2 ^ 1024 - 2 ^ 970 ≤ 100 * ((m : ℚ) * 2 ^ q) →
        moneyText v = (if negative then "-inf" else "inf").toList) := by
  have hfinite : ∀ negative m q, Number.parts v.toNumber = .finite negative m q →
      (100 * ((m : ℚ) * 2 ^ q) < 2 ^ 1024 - 2 ^ 970 →
        IsAmount (moneyText v) ∧ moneyText v ≠ "-0.00".toList) ∧
      (2 ^ 1024 - 2 ^ 970 ≤ 100 * ((m : ℚ) * 2 ^ q) →
        moneyText v = (if negative then "-inf" else "inf").toList) := by
    intro negative m q h
    have hbound := Number.hundredfold_lt_iff h
    rw [moneyText_of_finite h]
    constructor
    · intro hlt
      obtain ⟨sign, r, e, hamount, hlarge⟩ := Number.parts_toHundredths_of_lt h (hbound.mpr hlt)
      exact Number.isAmount_fixed hamount hlarge
    · intro hle
      have hamount := Number.parts_toHundredths_of_le h (Nat.not_lt.mp fun hlt => hle.not_gt (hbound.mp hlt))
      rw [Number.infinite_beq_zero hamount, if_neg Bool.false_ne_true, Number.fixed, hamount]
      cases negative <;> rfl
  -- a finite number always gives a text: an amount, or the word for an infinity
  refine ⟨⟨fun hempty => ?_, fun hnone => ?_⟩, hfinite⟩
  · rw [← Bool.not_eq_true]
    intro hsome
    cases h : Number.parts v.toNumber with
    | nan => rw [Number.isFinite, h] at hsome; cases hsome
    | infinite negative => rw [Number.isFinite, h] at hsome; cases hsome
    | finite negative m q =>
      rcases lt_or_ge (100 * ((m : ℚ) * 2 ^ q)) (2 ^ 1024 - 2 ^ 970) with hlt | hle
      · exact ((hfinite negative m q h).1 hlt).1.ne_nil hempty
      · rw [(hfinite negative m q h).2 hle] at hempty
        cases negative <;> cases hempty
  · rw [moneyText]
    exact if_neg (by rw [hnone]; exact Bool.false_ne_true)

/-- The largest power of ten among the doubles is a finite number whose hundredfold is none. -/
theorem moneyText_overflows :
    let v : Value := .number 1e308
    Number.isFinite v.toNumber = true ∧ moneyText v = "inf".toList ∧ ¬ IsAmount (moneyText v) := by
  intro v
  have hinf : moneyText v = "inf".toList := by decide +kernel
  refine ⟨by decide +kernel, hinf, ?_⟩
  rw [hinf]
  rintro ⟨sign, whole, c, d, htext, -⟩
  have hmem : '.' ∈ "inf".toList := by rw [htext]; simp
  exact absurd hmem (by decide)

end Stencil
