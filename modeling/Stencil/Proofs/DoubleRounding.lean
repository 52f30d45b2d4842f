/-
Stencil/Proofs/DoubleRounding.lean

How doubles are rounded.  A result `m · 2^e` that has more bits than a double keeps is
shifted to the exponent `grid m e`, and what falls off decides whether the mantissa that
is kept goes up by one.  `roundWithAccuracy_eq` says what becomes of it: the mantissa that
was kept, with the next exponent if it ran over.

The main results are about single operations on a finite double: the exact bound from which
on a product overflows (`parts_mul_hundred`), and that adding a half, making whole and
dividing by a hundred never do (`parts_add_half`, `parts_floor`, `parts_div_hundred`).
-/
import Mathlib
import Stencil.Proofs.WholeNumber

namespace Stencil.Number

open Float.Model Float.Model.UnpackedFloat

variable {m n k r : Nat} {e q : Int} {s : Sign} {accuracy : Accuracy}

/-! ### Shifting -/

/-- The exponent at which `m · 2^e` is rounded. -/
def grid (m : Nat) (e : Int) : Int := Format.binary64.targetExponent (totalExponent m e)

theorem grid_eq (m : Nat) (e : Int) : grid m e = max (m.log2 + e - 52) (-1074) := by
  simp only [grid, Format.targetExponent, totalExponent, Format.mantissaBits, Format.minExponent]
  norm_num
  omega

/-- The mantissa that is kept of `m · 2^e`, rounded. -/
def kept (m : Nat) (e : Int) (accuracy : Accuracy) : Nat :=
  (ExtendedMantissa.ofMantissaAndAccuracy m accuracy >>> (grid m e - e).toNat).roundedMantissa

theorem mantissa_shiftRight (em : ExtendedMantissa) (k : Nat) :
    (em >>> k).mantissa = em.mantissa / 2 ^ k := by
  induction k with
  | zero => rw [Nat.pow_zero, Nat.div_one]; rfl
  | succ k ih =>
    show (em >>> k).mantissa / 2 = _
    rw [ih, Nat.div_div_eq_div_mul, ← Nat.pow_succ]

theorem mantissa_ofMantissaAndAccuracy (m : Nat) (accuracy : Accuracy) :
    (ExtendedMantissa.ofMantissaAndAccuracy m accuracy).mantissa = m := by
  rcases accuracy with - | order
  · rfl
  · cases order <;> rfl

/-- What falls off makes the mantissa larger by one at most, and not at all if the first bit that falls
off is none; an odd mantissa goes up if it is one. -/
theorem roundedMantissa_bounds (em : ExtendedMantissa) :
    em.mantissa ≤ em.roundedMantissa ∧ em.roundedMantissa ≤ em.mantissa + em.roundBit.toNat ∧
      (em.mantissa % 2 = 1 → em.roundBit = true → em.roundedMantissa = em.mantissa + 1) := by
  obtain ⟨m, roundBit, stickyBit⟩ := em
  have hle : m % 2 ≤ 1 := by omega
  cases roundBit <;> cases stickyBit <;>
    simp [ExtendedMantissa.roundedMantissa, ExtendedMantissa.accuracy, Accuracy.roundToNearestEven, hle]

theorem kept_bounds (m : Nat) (e : Int) (accuracy : Accuracy) :
    m / 2 ^ (grid m e - e).toNat ≤ kept m e accuracy ∧
      kept m e accuracy ≤ m / 2 ^ (grid m e - e).toNat + 1 := by
  have hbounds := roundedMantissa_bounds
    (ExtendedMantissa.ofMantissaAndAccuracy m accuracy >>> (grid m e - e).toNat)
  rw [mantissa_shiftRight, mantissa_ofMantissaAndAccuracy] at hbounds
  exact ⟨hbounds.1, hbounds.2.1.trans (Nat.add_le_add_left (Bool.toNat_le _) _)⟩

/-- At most 53 bits are left of a mantissa behind the shift. -/
theorem div_lt_two_pow (h : e ≤ grid m e) : m / 2 ^ (grid m e - e).toNat < 2 ^ 53 := by
  rw [Nat.div_lt_iff_lt_mul (by positivity), ← Nat.pow_add]
  refine Nat.lt_of_lt_of_le Nat.lt_log2_self (Nat.pow_le_pow_right (by decide) ?_)
  have hgrid := grid_eq m e
  omega

/-- All 53 bits are left above the least exponent. -/
theorem two_pow_le_div (hpos : 0 < m) (h : e ≤ grid m e) (hgrid : grid m e ≠ -1074) :
    2 ^ 52 ≤ m / 2 ^ (grid m e - e).toNat := by
  rw [Nat.le_div_iff_mul_le (by positivity), ← Nat.pow_add]
  refine (Nat.pow_le_pow_right (by decide) ?_).trans (Nat.log2_self_le (Nat.ne_of_gt hpos))
  have heq := grid_eq m e
  omega

theorem shiftToTargetExponent_eq (m : Nat) (e : Int) (accuracy : Accuracy) (h : e ≤ grid m e) :
    shiftToTargetExponent Format.binary64 m e accuracy =
      (ExtendedMantissa.ofMantissaAndAccuracy m accuracy >>> (grid m e - e).toNat, grid m e) := by
  have hexponent : e + ((grid m e - e).toNat : Int) = grid m e := by omega
  rw [shiftToTargetExponent, shiftToExponent, ← grid, hexponent]

/-- A mantissa that needs no shift is left alone. -/
theorem shiftToTargetExponent_self (hlt : r < 2 ^ 53) (hlow : -1074 ≤ q) :
    shiftToTargetExponent Format.binary64 r q .exact = (⟨r, false, false⟩, q) := by
  have hlog : r.log2 ≤ 52 := by
    rcases Nat.eq_zero_or_pos r with rfl | hpos
    · decide
    · exact log2_le hpos hlt
  have hnone : (grid r q - q).toNat = 0 := by
    rw [grid_eq]
    omega
  rw [shiftToTargetExponent, shiftToExponent, ← grid, hnone, Int.natCast_zero, Int.add_zero]
  rfl

/-- **What rounding makes of `m · 2^e`**: the mantissa that is kept on its grid, and if it ran over, the
next power of two. -/
theorem roundWithAccuracy_eq (s : Sign) (m : Nat) (e : Int) (accuracy : Accuracy) (h : e ≤ grid m e) :
    roundWithAccuracy Format.binary64 s m e accuracy =
      if hzero : kept m e accuracy = 0 then .zero s
      else if kept m e accuracy < 2 ^ 53 then
        .finite s (kept m e accuracy) (grid m e) (Nat.pos_of_ne_zero hzero)
      else .finite s (2 ^ 52) (grid m e + 1) (by decide) := by
  have hlow : -1074 ≤ grid m e := by
    rw [grid_eq]
    omega
  have hbounds := kept_bounds m e accuracy
  have hlt := div_lt_two_pow h
  have hkept : (ExtendedMantissa.ofMantissaAndAccuracy m accuracy >>>
      (grid m e - e).toNat).roundedMantissa = kept m e accuracy := rfl
  rw [roundWithAccuracy, shiftToTargetExponent_eq m e accuracy h]
  by_cases hsmall : kept m e accuracy < 2 ^ 53
  · simp only [hkept, shiftToTargetExponent_self hsmall hlow, if_pos hsmall]
  · have hover : kept m e accuracy = 2 ^ 52 * 2 ^ 1 := by omega
    have hshifted := shiftToTargetExponent_exact 1 Nat.log2_two_pow (show -1074 ≤ grid m e + 1 by omega)
    rw [Int.natCast_one, Int.add_sub_cancel, ← hover] at hshifted
    simp only [hkept, hshifted, if_neg hsmall]
    rw [dif_neg (by decide), dif_neg (by omega)]

/-- What is packed of `m · 2^e` after rounding, if it is not too large: the mantissa that is kept on its
grid, or a power of two that does not differ from it. -/
theorem unpack_round (hpos : 0 < m) (h : e ≤ grid m e) (hhigh : grid m e ≤ 971)
    (hrange : grid m e = 971 → kept m e accuracy < 2 ^ 53) :
    ∃ r q, Parts.ofUnpacked (Float.Model.pack (roundWithAccuracy Format.binary64 s m e accuracy)).unpack =
        .finite (s == .negative) r q ∧
      (grid m e ≠ -1074 → 2 ^ 52 ≤ r ∧ grid m e ≤ q) := by
  have hlow : -1074 ≤ grid m e := by
    rw [grid_eq]
    omega
  have hbounds := kept_bounds m e accuracy
  have hfull := two_pow_le_div hpos h
  rw [roundWithAccuracy_eq s m e accuracy h]
  split
  · refine ⟨0, -1074, by cases s <;> rfl, fun hgrid => ?_⟩
    have hkept := hfull hgrid
    omega
  · split
    · next hzero hsmall =>
      have hfits : Fits (kept m e accuracy) (grid m e) :=
        ⟨hsmall, hlow, hhigh,
          (em (grid m e = -1074)).symm.imp_left fun hgrid => (hfull hgrid).trans hbounds.1⟩
      rw [unpack_pack _ hfits]
      exact ⟨_, _, rfl, fun hgrid => ⟨(hfull hgrid).trans hbounds.1, Int.le_refl _⟩⟩
    · next hlarge =>
      have hfits : Fits (2 ^ 52) (grid m e + 1) := ⟨by decide, by omega, by omega, .inl (Nat.le_refl _)⟩
      rw [unpack_pack _ hfits]
      exact ⟨_, _, rfl, fun _ => ⟨Nat.le_refl _, by omega⟩⟩

/-! ### Overflow -/

section Overflow

variable {j : Nat}

/-- If all that falls off is one bit and what fell off before, the bit decides. -/
theorem roundedMantissa_shiftRightOne (em : ExtendedMantissa) :
    em.shiftRightOne.roundedMantissa ≤ (em.mantissa + 1) / 2 ∧
      (em.mantissa % 4 = 3 → em.shiftRightOne.roundedMantissa = (em.mantissa + 1) / 2) := by
  obtain ⟨-, hupper, hodd⟩ := roundedMantissa_bounds em.shiftRightOne
  have hmantissa : em.shiftRightOne.mantissa = em.mantissa / 2 := rfl
  have hbit : em.shiftRightOne.roundBit = (em.mantissa % 2 != 0) := rfl
  rw [hmantissa, hbit] at hupper hodd
  rcases Nat.mod_two_eq_zero_or_one em.mantissa with heven | hone
  · rw [heven] at hupper
    exact ⟨hupper.trans (by simp; omega), fun h => by omega⟩
  · rw [hone] at hupper hodd
    refine ⟨hupper.trans (by simp; omega), fun h => ?_⟩
    rw [hodd (by omega) rfl]
    omega

theorem kept_exact_bounds (hj : (grid m e - e).toNat = j + 1) :
    kept m e .exact ≤ (m / 2 ^ j + 1) / 2 ∧
      (m / 2 ^ j % 4 = 3 → kept m e .exact = (m / 2 ^ j + 1) / 2) := by
  have hbounds := roundedMantissa_shiftRightOne ((⟨m, false, false⟩ : ExtendedMantissa) >>> j)
  rw [mantissa_shiftRight] at hbounds
  rw [kept, hj]
  exact hbounds

/-- The least mantissa over `2^e` that overflows: it lies halfway between the largest double and
`2^1024`. -/
def overflowMantissa (e : Int) : Nat := (2 ^ 54 - 1) * 2 ^ (970 - e).toNat

theorem lt_overflowMantissa_iff (he : e ≤ 970) :
    m < overflowMantissa e ↔ (m : ℚ) * 2 ^ e < 2 ^ 1024 - 2 ^ 970 := by
  have hunit : (0 : ℚ) < 2 ^ e := zpow_pos (by norm_num) e
  have hbound : (overflowMantissa e : ℚ) * 2 ^ e = 2 ^ 1024 - 2 ^ 970 := by
    have hexponent : ((970 - e).toNat : Int) + e = 970 := by omega
    have hpower : (2 : ℚ) ^ (970 - e).toNat * 2 ^ e = 2 ^ 970 := by
      rw [← zpow_natCast, ← zpow_add₀ (by norm_num), hexponent]
      rfl
    have htop : (2 : ℚ) ^ 1024 = 2 ^ 54 * 2 ^ 970 := by rw [← pow_add]
    have hfront : ((2 ^ 54 - 1 : Nat) : ℚ) = 2 ^ 54 - 1 := by norm_num
    rw [overflowMantissa, Nat.cast_mul, Nat.cast_pow, Nat.cast_ofNat, hfront, mul_assoc, hpower, htop,
      sub_mul, one_mul]
  rw [← hbound, mul_lt_mul_iff_left₀ hunit, Nat.cast_lt]

theorem log2_lt_of_lt_overflowMantissa (hpos : 0 < m) (h : m < overflowMantissa e) :
    m.log2 < 54 + (970 - e).toNat := by
  rw [Nat.log2_lt (Nat.ne_of_gt hpos), Nat.pow_add]
  exact Nat.lt_of_lt_of_le h (Nat.mul_le_mul_right _ (by decide))

theorem le_log2_of_overflowMantissa_le (h : overflowMantissa e ≤ m) : 53 + (970 - e).toNat ≤ m.log2 := by
  have hle : 2 ^ 53 * 2 ^ (970 - e).toNat ≤ m := (Nat.mul_le_mul_right _ (by decide)).trans h
  have hne : m ≠ 0 := by
    rintro rfl
    have hpower : 0 < 2 ^ (970 - e).toNat := Nat.two_pow_pos _
    omega
  rwa [Nat.le_log2 hne, Nat.pow_add]

/-- An exact value below the bound is rounded to a finite double. -/
theorem unpack_round_of_lt (hpos : 0 < m) (h : e ≤ grid m e) (he : e ≤ 970)
    (hlt : m < overflowMantissa e) :
    ∃ r q, Parts.ofUnpacked (Float.Model.pack (roundWithAccuracy Format.binary64 s m e .exact)).unpack =
      .finite (s == .negative) r q := by
  have hlog := log2_lt_of_lt_overflowMantissa hpos hlt
  have hgrid := grid_eq m e
  have htop : grid m e = 971 → kept m e .exact < 2 ^ 53 := fun htop => by
    have hshift : (grid m e - e).toNat = (970 - e).toNat + 1 := by omega
    have hkept := (kept_exact_bounds hshift).1
    have hhalf : m / 2 ^ (970 - e).toNat < 2 ^ 54 - 1 :=
      (Nat.div_lt_iff_lt_mul (by positivity)).mpr hlt
    omega
  obtain ⟨r, q, hround, -⟩ := unpack_round hpos h (by omega) htop
  exact ⟨r, q, hround⟩

/-- An exact value from the bound on is rounded to an infinity. -/
theorem unpack_round_of_le (h : e ≤ grid m e) (he : e ≤ 970) (hle : overflowMantissa e ≤ m) :
    (Float.Model.pack (roundWithAccuracy Format.binary64 s m e .exact)).unpack = .infinity s := by
  have hlog := le_log2_of_overflowMantissa_le hle
  have hgrid := grid_eq m e
  have hbounds := kept_bounds m e .exact
  have hpos : 0 < m := by
    rcases Nat.eq_zero_or_pos m with rfl | hpos
    · have hzero : Nat.log2 0 = 0 := by decide
      omega
    · exact hpos
  have hfull := two_pow_le_div hpos h (by omega)
  rw [roundWithAccuracy_eq s m e .exact h, dif_neg (by omega)]
  split
  · next hsmall =>
    refine unpack_pack_of_lt _ ?_
    by_contra htop
    -- on the last grid all bits are ones, and so it is rounded up
    have hshift : (grid m e - e).toNat = (970 - e).toNat + 1 := by omega
    have hhalf : 2 ^ 54 - 1 ≤ m / 2 ^ (970 - e).toNat := (Nat.le_div_iff_mul_le (by positivity)).mpr hle
    have hlt := div_lt_two_pow h
    rw [hshift, Nat.pow_succ, ← Nat.div_div_eq_div_mul] at hlt
    have hkept := (kept_exact_bounds hshift).2 (by omega)
    omega
  · exact unpack_pack_of_lt _ (by omega)

theorem overflowMantissa_sub (he : e ≤ 970) (k : Nat) :
    overflowMantissa (e - k) = overflowMantissa e * 2 ^ k := by
  have hshift : (970 - (e - k)).toNat = (970 - e).toNat + k := by omega
  rw [overflowMantissa, overflowMantissa, hshift, Nat.pow_add, Nat.mul_assoc]

/-- The same where the mantissa still has to be brought to the grid. -/
theorem unpack_unshifted_round_of_lt (hpos : 0 < m) (he : e ≤ 970) (hlt : m < overflowMantissa e) :
    ∃ r q, Parts.ofUnpacked (Float.Model.pack (UnpackedFloat.round Format.binary64 s m e)).unpack =
      .finite (s == .negative) r q := by
  have hround : UnpackedFloat.round Format.binary64 s m e = roundWithAccuracy Format.binary64 s
      (m * 2 ^ (e - grid m e).toNat) (e - (e - grid m e).toNat) .exact := by
    simp only [UnpackedFloat.round, decreaseExponent, Nat.shiftLeft_eq, grid]
  have hgrid : grid (m * 2 ^ (e - grid m e).toNat) (e - (e - grid m e).toNat) = grid m e := by
    rw [grid_eq, grid_eq m, log2_mul_two_pow (Nat.ne_of_gt hpos)]
    omega
  rw [hround]
  refine unpack_round_of_lt (Nat.mul_pos hpos (Nat.two_pow_pos _)) (by omega) (by omega) ?_
  rw [overflowMantissa_sub he]
  exact Nat.mul_lt_mul_of_pos_right hlt (Nat.two_pow_pos _)

theorem unpack_normalize_of_lt {total : Int} (zeroSign : Sign) (he : e ≤ 970)
    (hlt : total.natAbs < overflowMantissa e) :
    ∃ sign r q, Parts.ofUnpacked
      (Float.Model.pack (UnpackedFloat.normalize Format.binary64 total e zeroSign)).unpack =
        .finite sign r q := by
  rcases Int.lt_trichotomy total 0 with hneg | rfl | hpos
  · have hnormal : UnpackedFloat.normalize Format.binary64 total e zeroSign =
        UnpackedFloat.round Format.binary64 .negative total.natAbs e := by
      have habs : (-total).toNat = total.natAbs := by omega
      rw [UnpackedFloat.normalize, compare_lt_iff_lt.mpr hneg, ← habs]
    rw [hnormal]
    exact ⟨_, unpack_unshifted_round_of_lt (by omega) he hlt⟩
  · have hnormal : UnpackedFloat.normalize Format.binary64 0 e zeroSign = .zero zeroSign := by
      rw [UnpackedFloat.normalize, compare_eq_iff_eq.mpr rfl]
    rw [hnormal]
    exact ⟨zeroSign == .negative, 0, -1074, by cases zeroSign <;> rfl⟩
  · have hnormal : UnpackedFloat.normalize Format.binary64 total e zeroSign =
        UnpackedFloat.round Format.binary64 .positive total.natAbs e := by
      have habs : total.toNat = total.natAbs := by omega
      rw [UnpackedFloat.normalize, compare_gt_iff_gt.mpr hpos, ← habs]
    rw [hnormal]
    exact ⟨_, unpack_unshifted_round_of_lt (by omega) he hlt⟩

end Overflow

/-! ### Doubles that are put together -/

theorem toNat_ofFields {negative : Bool} {exponent fraction : Nat} (hexponent : exponent < 2047)
    (hfraction : fraction < 2 ^ 52) :
    (ofFields negative exponent fraction).toBits.toNat =
      (if negative then 2 ^ 63 else 0) + exponent * 2 ^ 52 + fraction := by
  have hsign : (if negative then 2 ^ 63 else 0) = 0 ∨ (if negative then 2 ^ 63 else 0) = 2 ^ 63 := by
    cases negative <;> simp
  rw [ofFields]
  generalize (if negative then 2 ^ 63 else 0) = sign at hsign ⊢
  have hbits : (UInt64.ofNat (sign + exponent * 2 ^ 52 + fraction)).toBitVec.toNat =
      sign + exponent * 2 ^ 52 + fraction := by
    rw [UInt64.toNat_toBitVec, UInt64.toNat_ofNat']
    omega
  -- the exponent field is not the one that marks what is no number
  have hnan : @isNaNBits Format.binary64
      (UInt64.ofNat (sign + exponent * 2 ^ 52 + fraction)).toBitVec = false := by
    have htoNat := toNat_unpackExponent (UInt64.ofNat (sign + exponent * 2 ^ 52 + fraction)).toBitVec
    rw [isNaNBits, decide_eq_false_iff_not]
    rintro ⟨hmarked, -⟩
    rw [hmarked, hbits] at htoNat
    change 2047 = _ at htoNat
    omega
  have hpack := @pack_unpack Format.binary64
    (UInt64.ofNat (sign + exponent * 2 ^ 52 + fraction)).toBitVec (by decide)
  rw [hnan, if_neg Bool.false_ne_true] at hpack
  show (UnpackedFloat.pack Format.binary64 (UnpackedFloat.unpack Format.binary64
    (UInt64.ofNat (sign + exponent * 2 ^ 52 + fraction)).toBitVec)).toNat = _
  rw [hpack, hbits]

theorem parts_ofFields {negative : Bool} {exponent fraction : Nat} (hexponent : exponent < 2047)
    (hfraction : fraction < 2 ^ 52) :
    parts (ofFields negative exponent fraction) =
      if exponent = 0 then .finite negative fraction (-1074)
      else .finite negative (2 ^ 52 + fraction) ((exponent : Int) - 1075) := by
  have hsign : ((if negative then 2 ^ 63 else 0) + exponent * 2 ^ 52 + fraction) / 2 ^ 63 % 2 =
      negative.toNat := by
    cases negative <;> simp <;> omega
  have hsplit : ((if negative then 2 ^ 63 else 0) + exponent * 2 ^ 52 + fraction) / 2 ^ 52 % 2 ^ 11 =
      exponent ∧ ((if negative then 2 ^ 63 else 0) + exponent * 2 ^ 52 + fraction) % 2 ^ 52 =
        fraction := by
    cases negative <;> simp <;> omega
  have hnegative : (negative.toNat == 1) = negative := by cases negative <;> rfl
  rw [parts, toNat_ofFields hexponent hfraction]
  simp only [hsign, hsplit, hnegative]
  rw [if_neg (by omega)]

/-- A whole number below `2^53` with a sign. -/
theorem parts_ofDyadic_whole (negative : Bool) (h : n < 2 ^ 53) :
    parts (ofDyadic negative n 0) =
      if n = 0 then .finite negative 0 (-1074) else .finite negative (significand n) (-lift n) := by
  rw [ofDyadic]
  split
  · rw [parts_ofFields (Nat.zero_lt_succ _) (Nat.two_pow_pos 52), if_pos rfl]
  · next hne =>
    have hpos := Nat.pos_of_ne_zero hne
    have hge := significand_ge hpos h
    have hlt := significand_lt hpos h
    have hlog := log2_le hpos h
    have hlift : min (52 - Nat.log2 n) (0 + 1074 : Int).toNat = lift n := by
      rw [lift]
      omega
    have hfield : ((0 : Int) - (lift n : Int) + 1075).toNat = 1075 - lift n := by omega
    have hle : lift n ≤ 52 := Nat.sub_le 52 _
    have hwhole : 2 ^ 52 + (significand n - 2 ^ 52) = significand n := by omega
    have hscale : ((1075 - lift n : Nat) : Int) - 1075 = -lift n := by omega
    simp only [hlift, hfield]
    rw [← significand, if_neg (by omega), parts_ofFields (by omega) (by omega), if_neg (by omega),
      hwhole, hscale]

/-! ### Operations -/

section Operations

variable {x : Float} {negative : Bool}

theorem unpack_hundred : (100.0 : Float).toModel.unpack = .finite .positive (100 * 2 ^ 46) (-46) (by decide) :=
  rfl

theorem unpack_half : (0.5 : Float).toModel.unpack = .finite .positive (2 ^ 52) (-53) (by decide) := rfl

theorem mul_positive (s : Sign) : s * .positive = s := by cases s <;> rfl

theorem div_positive (s : Sign) : s / .positive = s := by cases s <;> rfl

theorem overflowMantissa_pos (e : Int) : 0 < overflowMantissa e :=
  Nat.mul_pos (by decide) (Nat.two_pow_pos _)

/-- The hundredfold of a finite double overflows exactly from the bound on. -/
theorem parts_mul_hundred (h : parts x = .finite negative m e) :
    (m * (100 * 2 ^ 46) < overflowMantissa (e - 46) →
      ∃ r q, parts (x * 100.0) = .finite negative r q) ∧
    (overflowMantissa (e - 46) ≤ m * (100 * 2 ^ 46) → parts (x * 100.0) = .infinite negative) := by
  have hfits := fits_of_parts h
  have hproduct : parts (x * 100.0) = .ofUnpacked (Float.Model.pack
      (UnpackedFloat.mul Format.binary64 x.toModel.unpack (100.0 : Float).toModel.unpack)).unpack :=
    parts_eq _
  obtain ⟨s, rfl, ⟨rfl, hu⟩ | ⟨hpos, hu⟩⟩ := unpack_of_parts h
  · rw [hu, unpack_hundred] at hproduct
    have hbound := overflowMantissa_pos (e - 46)
    refine ⟨fun _ => ⟨0, -1074, hproduct.trans ?_⟩, fun hle => by omega⟩
    cases s <;> rfl
  · have hmantissa : 0 < m * (100 * 2 ^ 46) := by omega
    have hfine : e - 46 ≤ grid (m * (100 * 2 ^ 46)) (e - 46) := by
      have hlog : 52 ≤ (m * (100 * 2 ^ 46)).log2 := (Nat.le_log2 (by omega)).mpr (by omega)
      rw [grid_eq]
      omega
    have hhigh := hfits.high
    have hround : UnpackedFloat.mul Format.binary64 x.toModel.unpack (100.0 : Float).toModel.unpack =
        roundWithAccuracy Format.binary64 s (m * (100 * 2 ^ 46)) (e - 46) .exact := by
      rw [hu, unpack_hundred]
      show roundWithAccuracy Format.binary64 (s * .positive) _ (e + -46) .exact = _
      rw [mul_positive, ← Int.sub_eq_add_neg]
    rw [hproduct, hround]
    exact ⟨fun hlt => unpack_round_of_lt hmantissa hfine (by omega) hlt,
      fun hle => by rw [unpack_round_of_le hfine (by omega) hle]; rfl⟩

/-- The sum of a finite double and a half is finite. -/
theorem parts_add_half (h : parts x = .finite negative m e) :
    ∃ sign r q, parts (x + 0.5) = .finite sign r q := by
  have hfits := fits_of_parts h
  have hlt := hfits.lt
  have hlow := hfits.low
  have hhigh := hfits.high
  have hsum : parts (x + 0.5) = .ofUnpacked (Float.Model.pack
      (UnpackedFloat.add Format.binary64 x.toModel.unpack (0.5 : Float).toModel.unpack)).unpack :=
    parts_eq _
  -- zero and a half make a half
  obtain ⟨s, rfl, ⟨rfl, hu⟩ | ⟨hpos, hu⟩⟩ := unpack_of_parts h
  · rw [hu, unpack_half] at hsum
    exact ⟨false, 2 ^ 52, -53, hsum.trans (by cases s <;> rfl)⟩
  · rw [hu, unpack_half] at hsum
    -- both summands over the smaller of the two exponents
    let least := min e (-53)
    let total := s.apply ((m <<< (e - least).toNat : Nat) : Int) +
      ((2 ^ 52 <<< (-53 - least).toNat : Nat) : Int)
    have htotal : total.natAbs ≤ m * 2 ^ (e - least).toNat + 2 ^ 52 * 2 ^ (-53 - least).toNat := by
      have hfirst : (s.apply ((m <<< (e - least).toNat : Nat) : Int)).natAbs =
          m * 2 ^ (e - least).toNat := by
        rw [Nat.shiftLeft_eq]
        cases s <;> simp [Sign.apply, Int.natAbs_mul, Int.natAbs_pow]
      refine (Int.natAbs_add_le _ _).trans ?_
      rw [hfirst, Int.natAbs_natCast, Nat.shiftLeft_eq]
    -- what overflows begins far above the sum of any double and a half
    have hbound : total.natAbs < overflowMantissa least := by
      refine htotal.trans_lt ?_
      have hpower : (970 - least).toNat = 1023 + (-53 - least).toNat := by omega
      have hscale : 2 ^ (e - least).toNat ≤ 2 ^ (1 + (1023 + (-53 - least).toNat)) :=
        Nat.pow_le_pow_right (by decide) (by omega)
      have hhalf : 2 ^ 53 * 2 ^ (-53 - least).toNat ≤ 2 ^ (1023 + (-53 - least).toNat) := by
        rw [← Nat.pow_add]
        exact Nat.pow_le_pow_right (by decide) (by omega)
      rw [overflowMantissa, hpower]
      rw [Nat.pow_add, Nat.pow_one] at hscale
      have hunit := Nat.two_pow_pos (-53 - least).toNat
      have hterm : m * 2 ^ (e - least).toNat ≤ (2 ^ 53 - 1) * (2 * 2 ^ (1023 + (-53 - least).toNat)) :=
        Nat.mul_le_mul (by omega) hscale
      omega
    obtain ⟨sign, r, q, hnormal⟩ := unpack_normalize_of_lt .positive (show least ≤ 970 by omega) hbound
    exact ⟨sign, r, q, hsum.trans hnormal⟩

theorem wholeMagnitude_lt (enlarge : Bool) (h : m < 2 ^ 53) (hq : q < 0) :
    wholeMagnitude enlarge m q < 2 ^ 53 := by
  have hunit : 2 ^ 1 ≤ 2 ^ (-q).toNat := Nat.pow_le_pow_right (by decide) (by omega)
  have hhalf : m / 2 ^ (-q).toNat ≤ m / 2 ^ 1 := Nat.div_le_div_left hunit (by decide)
  rw [wholeMagnitude, if_neg (by omega)]
  dsimp only
  split <;> omega

/-- An infinity stays one. -/
theorem parts_of_infinite (h : parts x = .infinite negative) :
    parts (x + 0.5) = .infinite negative ∧ parts (floor x) = .infinite negative ∧
      parts (x / 100.0) = .infinite negative := by
  obtain ⟨s, rfl, hu⟩ := unpack_of_infinite h
  refine ⟨?_, ?_, ?_⟩
  · show parts (.ofModel (.pack (UnpackedFloat.add Format.binary64 x.toModel.unpack _))) = _
    rw [hu, parts_eq]
    cases s <;> rfl
  · rw [floor, round, h]
    exact h
  · show parts (.ofModel (.pack (UnpackedFloat.div Format.binary64 x.toModel.unpack _))) = _
    rw [hu, parts_eq]
    cases s <;> rfl

/-- A finite double made whole is a zero, or has all its bits at or above a half. -/
theorem parts_floor (h : parts x = .finite negative m e) :
    ∃ sign r q, parts (floor x) = .finite sign r q ∧ (r = 0 ∨ 2 ^ 52 ≤ r ∧ -52 ≤ q) := by
  have hfits := fits_of_parts h
  rw [floor, round, h]
  simp only
  split
  · next hwhole =>
    refine ⟨negative, m, e, h, .inr ⟨hfits.full.resolve_right (by omega), by omega⟩⟩
  · next hfraction =>
    have hlt := wholeMagnitude_lt (Rounding.down.enlarges negative) hfits.lt (by omega : e < 0)
    rw [parts_ofDyadic_whole negative hlt]
    split
    · exact ⟨negative, 0, -1074, rfl, .inl rfl⟩
    · next hne =>
      have hpos := Nat.pos_of_ne_zero hne
      have hlift : lift (wholeMagnitude (Rounding.down.enlarges negative) m e) ≤ 52 := Nat.sub_le 52 _
      exact ⟨negative, _, _, rfl, .inr ⟨significand_ge hpos hlt, by omega⟩⟩

/-- A hundredth of a whole number is a zero, or it is not less than the hundred and twenty-eighth part of
one. -/
theorem parts_div_hundred (h : parts x = .finite negative m e)
    (hwhole : m = 0 ∨ 2 ^ 52 ≤ m ∧ -52 ≤ e) :
    ∃ r q, parts (x / 100.0) = .finite negative r q ∧ (r = 0 ↔ m = 0) ∧
      (r ≠ 0 → 2 ^ 52 ≤ r ∧ -59 ≤ q) := by
  have hfits := fits_of_parts h
  have hlt := hfits.lt
  have hhigh := hfits.high
  have hquotient : parts (x / 100.0) = .ofUnpacked (Float.Model.pack
      (UnpackedFloat.div Format.binary64 x.toModel.unpack (100.0 : Float).toModel.unpack)).unpack :=
    parts_eq _
  -- zero stays zero, with its sign
  obtain ⟨s, rfl, ⟨rfl, hu⟩ | ⟨hpos, hu⟩⟩ := unpack_of_parts h
  · rw [hu, unpack_hundred] at hquotient
    exact ⟨0, -1074, hquotient.trans (by cases s <;> rfl), by simp, fun hne => absurd rfl hne⟩
  · obtain ⟨hfull, hlow⟩ := hwhole.resolve_left (Nat.ne_of_gt hpos)
    -- a hundred is `100 * 2 ^ 46` at `2 ^ -46`, so the quotient is taken seven places below `e`
    have hlog := log2_of_full hfull hlt
    have hlog' : (100 * 2 ^ 46).log2 = 52 := by decide
    have htarget : min (e - -46) (Format.binary64.targetExponent
        (totalExponent m e - totalExponent (100 * 2 ^ 46) (-46))) = e - 7 := by
      simp only [Format.targetExponent, totalExponent, hlog, hlog', Format.mantissaBits, Format.minExponent]
      norm_num
      omega
    have hshift : (e - -46 - (e - 7)).toNat = 53 := by omega
    have hcore : divCore Format.binary64 m e (100 * 2 ^ 46) (-46) =
        (m * 2 ^ 53 / (100 * 2 ^ 46), e - 7,
          accuracyOfFraction (m * 2 ^ 53 % (100 * 2 ^ 46)) (100 * 2 ^ 46)) := by
      simp only [divCore, htarget, hshift, Nat.shiftLeft_eq]
    have hround : UnpackedFloat.div Format.binary64 x.toModel.unpack (100.0 : Float).toModel.unpack =
        roundWithAccuracy Format.binary64 s (m * 2 ^ 53 / (100 * 2 ^ 46)) (e - 7)
          (accuracyOfFraction (m * 2 ^ 53 % (100 * 2 ^ 46)) (100 * 2 ^ 46)) := by
      rw [hu, unpack_hundred]
      simp only [UnpackedFloat.div, hcore, div_positive]
    -- the quotient has one or two bits more than a mantissa, which are rounded away
    have hlower : 2 ^ 52 ≤ m * 2 ^ 53 / (100 * 2 ^ 46) := by omega
    have hupper : m * 2 ^ 53 / (100 * 2 ^ 46) < 2 ^ 54 := by omega
    generalize m * 2 ^ 53 / (100 * 2 ^ 46) = quotient at hlower hupper hround
    have hlow' : 52 ≤ quotient.log2 := (Nat.le_log2 (by omega)).mpr hlower
    have hhigh' : quotient.log2 < 54 := (Nat.log2_lt (by omega)).mpr hupper
    have hgrid := grid_eq quotient (e - 7)
    rw [hquotient, hround]
    obtain ⟨r, q, hparts, hbits⟩ := unpack_round (s := s) (by omega : 0 < quotient)
      (by omega : e - 7 ≤ grid quotient (e - 7)) (by omega) (by omega)
    obtain ⟨hr, hq⟩ := hbits (by omega)
    exact ⟨r, q, hparts, by omega, fun _ => ⟨hr, by omega⟩⟩

end Operations

end Stencil.Number
