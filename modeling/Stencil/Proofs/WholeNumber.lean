/-
Stencil/Proofs/WholeNumber.lean

Whole numbers below `2^53` as doubles.  Such a number `n` is `significand n · 2^(-lift n)`
with a significand of exactly 53 bits; nothing is lost when it is put into the fields
of a double or taken out of them, and rounding leaves it as it is.

The main results: `toInt_ofNat`, the number can be read off its double, and
`value_ofNat`, a numeral of its digits is rounded to the same double.
-/
import Mathlib
import Stencil.Proofs.DoubleParts

namespace Stencil.Number

open Float.Model Float.Model.UnpackedFloat

/-! ### Shifting and rounding -/

/-- A shift that drops zeros only leaves the mantissa exact. -/
theorem exact_shiftRight (m k : Nat) :
    (⟨m * 2 ^ k, false, false⟩ : ExtendedMantissa) >>> k = ⟨m, false, false⟩ := by
  induction k generalizing m with
  | zero => simp [HShiftRight.hShiftRight, Nat.repeat]
  | succ k ih =>
    have hm : m * 2 ^ (k + 1) = m * 2 * 2 ^ k := by
      rw [Nat.pow_succ]
      ring
    show ((⟨m * 2 ^ (k + 1), false, false⟩ : ExtendedMantissa) >>> k).shiftRightOne = _
    rw [hm, ih]
    simp [ExtendedMantissa.shiftRightOne]

theorem log2_mul_two_pow {m : Nat} (hm : m ≠ 0) (k : Nat) : (m * 2 ^ k).log2 = m.log2 + k := by
  induction k with
  | zero => rw [Nat.pow_zero, Nat.mul_one, Nat.add_zero]
  | succ k ih =>
    have hne : m * 2 ^ k ≠ 0 := Nat.mul_ne_zero hm (by positivity)
    have hstep : m * 2 ^ (k + 1) = 2 * (m * 2 ^ k) := by
      rw [Nat.pow_succ]
      ring
    rw [hstep, Nat.log2_two_mul hne, ih, Nat.add_assoc]

/-- A mantissa of 53 bits with zeros behind them is shifted to its 53 bits. -/
theorem shiftToTargetExponent_exact {m : Nat} (k : Nat) {e : Int} (hm : m.log2 = 52) (he : -1074 ≤ e) :
    shiftToTargetExponent Format.binary64 (m * 2 ^ k) (e - k) .exact = (⟨m, false, false⟩, e) := by
  have hne : m ≠ 0 := by
    rintro rfl
    cases hm
  have htarget : Format.binary64.targetExponent (totalExponent (m * 2 ^ k) (e - k)) = e := by
    simp only [Format.targetExponent, totalExponent, log2_mul_two_pow hne, hm, Format.mantissaBits,
      Format.minExponent]
    norm_num
    omega
  have hshift : (e - (e - k)).toNat = k := by omega
  rw [shiftToTargetExponent]
  simp only [htarget, shiftToExponent, hshift, ExtendedMantissa.ofMantissaAndAccuracy,
    exact_shiftRight]
  rw [Int.sub_add_cancel]

/-- Such a mantissa is rounded to itself. -/
theorem roundWithAccuracy_exact {m : Nat} (k : Nat) {e : Int} (hm : m.log2 = 52) (he : -1074 ≤ e)
    (hpos : 0 < m) :
    roundWithAccuracy Format.binary64 .positive (m * 2 ^ k) (e - k) .exact =
      .finite .positive m e hpos := by
  have hfirst := shiftToTargetExponent_exact k hm he
  have hsecond := shiftToTargetExponent_exact 0 hm he
  rw [Nat.pow_zero, Nat.mul_one, Int.natCast_zero, Int.sub_zero] at hsecond
  simp only [roundWithAccuracy, hfirst, ExtendedMantissa.roundedMantissa, ExtendedMantissa.accuracy,
    Accuracy.roundToNearestEven, hsecond]
  rw [dif_neg (Nat.ne_of_gt hpos)]

/-! ### The double of a whole number -/

/-- How many zeros stand behind the bits of a number in a significand of 53 bits. -/
def lift (n : Nat) : Nat := 52 - n.log2

/-- The bits of a number with zeros behind them, 53 together. -/
def significand (n : Nat) : Nat := n * 2 ^ lift n

variable {n : Nat}

theorem log2_le (hpos : 0 < n) (h : n < 2 ^ 53) : n.log2 ≤ 52 := by
  have hlog := (Nat.log2_lt (Nat.ne_of_gt hpos)).mpr h
  omega

theorem log2_significand (hpos : 0 < n) (h : n < 2 ^ 53) : (significand n).log2 = 52 := by
  have hlog := log2_le hpos h
  rw [significand, log2_mul_two_pow (Nat.ne_of_gt hpos), lift]
  omega

theorem significand_pos (hpos : 0 < n) : 0 < significand n := Nat.mul_pos hpos (by positivity)

theorem significand_ge (hpos : 0 < n) (h : n < 2 ^ 53) : 2 ^ 52 ≤ significand n := by
  have hlog := Nat.log2_self_le (Nat.ne_of_gt (significand_pos hpos))
  rwa [log2_significand hpos h] at hlog

theorem significand_lt (hpos : 0 < n) (h : n < 2 ^ 53) : significand n < 2 ^ 53 := by
  have hlog := Nat.lt_log2_self (n := significand n)
  rwa [log2_significand hpos h] at hlog

/-- The number as a double that is not packed. -/
def unpacked (n : Nat) (hpos : 0 < n) : Float.Model.UnpackedFloat :=
  .finite .positive (significand n) (-lift n) (significand_pos hpos)

theorem unpackedOfNat_eq (hpos : 0 < n) (h : n < 2 ^ 53) :
    Float.Model.UnpackedFloat.ofNat Format.binary64 n = unpacked n hpos := by
  have hlog := log2_le hpos h
  have htarget : Format.binary64.targetExponent (totalExponent n 0) = -(lift n : Int) := by
    simp only [Format.targetExponent, totalExponent, Format.mantissaBits, Format.minExponent, lift]
    norm_num
    omega
  have hshift : (0 - -(lift n : Int)).toNat = lift n := by omega
  have hexact := roundWithAccuracy_exact 0 (log2_significand hpos h)
    (show -1074 ≤ -(lift n : Int) by rw [lift]; omega) (significand_pos hpos)
  rw [Nat.pow_zero, Nat.mul_one, Int.natCast_zero, Int.sub_zero] at hexact
  have hcompare : compare (n : Int) 0 = .gt := by
    rw [compare_gt_iff_gt]
    exact Int.natCast_pos.mpr hpos
  simp only [UnpackedFloat.ofNat, UnpackedFloat.ofInt, UnpackedFloat.normalize, hcompare,
    UnpackedFloat.round, Int.toNat_natCast, htarget, decreaseExponent, hshift, Nat.shiftLeft_eq]
  rw [Int.zero_sub]
  exact hexact

/-- One as a factor leaves a number as it is. -/
theorem mul_one_unpacked (hpos : 0 < n) (h : n < 2 ^ 53) :
    Float.Model.UnpackedFloat.mul Format.binary64 (unpacked n hpos) (unpacked 1 Nat.one_pos) =
      unpacked n hpos := by
  have hlog := log2_le hpos h
  have hone : significand 1 = 2 ^ 52 := rfl
  have hexact := roundWithAccuracy_exact 52 (log2_significand hpos h)
    (show -1074 ≤ -(lift n : Int) by rw [lift]; omega) (significand_pos hpos)
  exact hexact

/-! ### Packing -/

/-- The fields of the double. -/
theorem pack_unpacked (hpos : 0 < n) (h : n < 2 ^ 53) :
    UnpackedFloat.pack Format.binary64 (unpacked n hpos) =
      packComponents Format.binary64 .positive (BitVec.ofNat 11 (1075 - lift n))
        (BitVec.ofNat 52 (significand n)) := by
  have hlog := log2_significand hpos h
  have hlift : lift n ≤ 52 := Nat.sub_le 52 _
  have hbiased : (-(lift n : Int) + (Format.binary64.exponentBias : Int) +
      (Format.binary64.mantissaBitsWithoutImplicit : Int)).toNat = 1075 - lift n := by
    simp only [Format.exponentBias]
    norm_num
    omega
  simp only [unpacked, UnpackedFloat.pack, hlog, hbiased]
  rw [if_neg (by norm_num; omega), if_pos (show 52 + 1 = Format.binary64.mantissaBits from rfl)]

theorem significand_mod (hpos : 0 < n) (h : n < 2 ^ 53) :
    significand n % 2 ^ 52 = significand n - 2 ^ 52 := by
  have hge := significand_ge hpos h
  have hlt := significand_lt hpos h
  omega

theorem unpack_pack_unpacked (hpos : 0 < n) (h : n < 2 ^ 53) :
    UnpackedFloat.unpack Format.binary64 (UnpackedFloat.pack Format.binary64 (unpacked n hpos)) =
      unpacked n hpos := by
  have hlift : lift n ≤ 52 := Nat.sub_le 52 _
  have hfits : Fits (significand n) (-lift n) :=
    ⟨significand_lt hpos h, by omega, by omega, .inl (significand_ge hpos h)⟩
  exact unpack_pack (significand_pos hpos) hfits

/-- The number as a double. -/
def packed (n : Nat) (hpos : 0 < n) : Float :=
  .ofModel (.pack (unpacked n hpos))

theorem toNat_packComponents (exponent : BitVec 11) (fraction : BitVec 52) :
    (packComponents Format.binary64 .positive exponent fraction).toNat =
      exponent.toNat * 2 ^ 52 + fraction.toNat := by
  show ((0#1 ++ exponent) ++ fraction).toNat = _
  rw [BitVec.toNat_append, BitVec.toNat_append, ← Nat.shiftLeft_add_eq_or_of_lt fraction.isLt,
    Nat.shiftLeft_eq]
  simp

theorem toNat_pack_unpacked (hpos : 0 < n) (h : n < 2 ^ 53) :
    (UnpackedFloat.pack Format.binary64 (unpacked n hpos)).toNat =
      (1075 - lift n) * 2 ^ 52 + (significand n - 2 ^ 52) := by
  have hlift : lift n ≤ 52 := Nat.sub_le 52 _
  rw [pack_unpacked hpos h, toNat_packComponents, BitVec.toNat_ofNat, BitVec.toNat_ofNat,
    significand_mod hpos h]
  omega

/-- Bits that hold the fields of a number are its double. -/
theorem ofBits_eq_packed (hpos : 0 < n) (h : n < 2 ^ 53) {bits : UInt64}
    (hbits : bits.toNat = (1075 - lift n) * 2 ^ 52 + (significand n - 2 ^ 52)) :
    Float.ofBits bits = packed n hpos := by
  have hvec : bits.toBitVec = UnpackedFloat.pack Format.binary64 (unpacked n hpos) := by
    refine BitVec.eq_of_toNat_eq ?_
    rw [toNat_pack_unpacked hpos h, UInt64.toNat_toBitVec, hbits]
  show Float.ofModel (.pack (UnpackedFloat.unpack Format.binary64 bits.toBitVec)) = _
  rw [hvec, unpack_pack_unpacked hpos h]
  rfl

theorem ofNat_eq_packed (hpos : 0 < n) (h : n < 2 ^ 53) : Number.ofNat n = packed n hpos := by
  have hlog := log2_le hpos h
  have hge := significand_ge hpos h
  have hlt := significand_lt hpos h
  have hlift : min (52 - Nat.log2 n) (0 + 1074 : Int).toNat = lift n := by
    rw [lift]
    omega
  have hfield : ((0 : Int) - (lift n : Int) + 1075).toNat = 1075 - lift n := by omega
  rw [Number.ofNat, if_pos h, ofDyadic, if_neg (Nat.ne_of_gt hpos)]
  simp only [hlift, hfield]
  rw [← significand, if_neg (by omega), ofFields, if_neg Bool.false_ne_true]
  refine ofBits_eq_packed hpos h ?_
  rw [UInt64.toNat_ofNat']
  omega

/-! ### Reading and taking apart -/

/-- The double that a numeral without a point is rounded to. -/
theorem ofScientific_eq_packed (hpos : 0 < n) (h : n < 2 ^ 53) :
    Float.ofScientific n false 0 = packed n hpos := by
  -- the power of ten is one, so both factors are whole numbers
  have hone : Float.ofBits 0x3FF0000000000000 = packed 1 Nat.one_pos :=
    ofBits_eq_packed Nat.one_pos (by decide) (by decide)
  have hnat : n.toUInt64.toFloat = packed n hpos := by
    have htoNat : n.toUInt64.toNat = n := by
      rw [Nat.toUInt64, UInt64.toNat_ofNat']
      omega
    show Float.ofModel (.pack (UnpackedFloat.ofNat Format.binary64 n.toUInt64.toNat)) = _
    rw [htoNat, unpackedOfNat_eq hpos h]
    rfl
  rw [Float.ofScientific, dif_pos ⟨h, by decide⟩]
  show n.toUInt64.toFloat * Float.ofBits 0x3FF0000000000000 = _
  rw [hone, hnat]
  show Float.ofModel (.pack (UnpackedFloat.mul Format.binary64
    (UnpackedFloat.unpack Format.binary64 (UnpackedFloat.pack Format.binary64 (unpacked n hpos)))
    (UnpackedFloat.unpack Format.binary64
      (UnpackedFloat.pack Format.binary64 (unpacked 1 Nat.one_pos))))) = _
  rw [unpack_pack_unpacked hpos h, unpack_pack_unpacked Nat.one_pos (by decide),
    mul_one_unpacked hpos h]
  rfl

theorem parts_ofNat (hpos : 0 < n) (h : n < 2 ^ 53) :
    parts (Number.ofNat n) = .finite false (significand n) (-lift n) := by
  rw [ofNat_eq_packed hpos h, parts_eq]
  exact congrArg Parts.ofUnpacked (unpack_pack_unpacked hpos h)

theorem parts_zero : parts (Number.ofNat 0) = .finite false 0 (-1074) := by decide

theorem wholeMagnitude_zero (enlarge : Bool) (q : Int) : wholeMagnitude enlarge 0 q = 0 := by
  rw [wholeMagnitude]
  split <;> simp

/-- A whole number below `2^53` stands for itself as a double. -/
theorem toInt_ofNat (h : n < 2 ^ 53) : toInt (Number.ofNat n) = n := by
  rcases Nat.eq_zero_or_pos n with rfl | hpos
  · rw [toInt, parts_zero]
    simp only [wholeMagnitude_zero]
    rfl
  · have hmagnitude : wholeMagnitude false (significand n) (-lift n) = n := by
      rw [wholeMagnitude, significand]
      split
      · next hnonneg =>
        have hlift : lift n = 0 := by omega
        simp [hlift]
      · simp
    rw [toInt, parts_ofNat hpos h]
    simp only [hmagnitude]
    rfl

theorem length_digitsOf_le (h : n < 2 ^ 53) : (digitsOf n).length ≤ 16 := by
  rw [digitsOf, Nat.length_toDigits_le_iff (by decide) (by decide)]
  exact Nat.lt_of_lt_of_le h (by decide)

/-- A numeral without a point and an exponent is read as the number that its digits write. -/
theorem value_ofNat (h : n < 2 ^ 53) : Numeral.value ⟨false, n, 0⟩ = Number.ofNat n := by
  rcases Nat.eq_zero_or_pos n with rfl | hpos
  · decide
  · have hplace := length_digitsOf_le h
    rw [Numeral.value, ofNat_eq_packed hpos h]
    simp only
    rw [if_neg Bool.false_ne_true, if_neg (by omega), if_neg (by omega),
      ← ofScientific_eq_packed hpos h]
    rfl

end Stencil.Number
