/-
Stencil/Proofs/DoubleParts.lean

The parts of a double and the double itself.  `parts` takes the bits apart, and these are
the fields of the unpacked double (`parts_eq`).  A double holds a mantissa and an exponent
that fit into its fields (`Fits`); packing loses nothing of these (`unpack_pack`).
-/
import Mathlib
import Stencil.Number.Decimal

namespace Stencil.Number

open Float.Model Float.Model.UnpackedFloat

variable {m : Nat} {e : Int} {s : Sign} {x : Float} {negative : Bool}

/-! ### The parts of a double -/

/-- The parts of a double that is unpacked. -/
def Parts.ofUnpacked : Float.Model.UnpackedFloat → Parts
  | .notANumber => .nan
  | .infinity s => .infinite (s == .negative)
  | .zero s => .finite (s == .negative) 0 (-1074)
  | .finite s m e _ => .finite (s == .negative) m e

/-- The exponent field that marks what is no finite double has all its bits. -/
theorem bits_eq_allOnes_iff (v : BitVec 11) : v = -1#11 ↔ v.toNat = 2047 := by
  rw [← BitVec.toNat_inj]
  rfl

theorem bits_eq_zero_iff {w : Nat} (v : BitVec w) : v = 0#w ↔ v.toNat = 0 := by
  rw [← BitVec.toNat_inj, BitVec.toNat_ofNat, Nat.zero_mod]

theorem toNat_append_one (fraction : BitVec 52) : (1#1 ++ fraction).toNat = 2 ^ 52 + fraction.toNat := by
  rw [BitVec.toNat_append, ← Nat.shiftLeft_add_eq_or_of_lt fraction.isLt]
  rfl

theorem toNat_unpackExponent (b : BitVec 64) :
    (@unpackExponent Format.binary64 b).toNat = b.toNat / 2 ^ 52 % 2 ^ 11 := by
  rw [unpackExponent_def, BitVec.extractLsb'_toNat, Nat.shiftRight_eq_div_pow]

theorem toNat_unpackMantissa (b : BitVec 64) :
    (@unpackMantissa Format.binary64 b).toNat = b.toNat % 2 ^ 52 := by
  rw [unpackMantissa_def, BitVec.extractLsb'_toNat, Nat.shiftRight_zero]

theorem ofBitVec_unpackSign (b : BitVec 64) :
    (Sign.ofBitVec (@unpackSign Format.binary64 b) == .negative) =
      (b.toNat / 2 ^ 63 % 2 == 1) := by
  have hbit : (@unpackSign Format.binary64 b).toNat = b.toNat / 2 ^ 63 % 2 := by
    rw [unpackSign_def, BitVec.extractLsb'_toNat, Nat.shiftRight_eq_div_pow]
    rfl
  have hcases : b.toNat / 2 ^ 63 % 2 = 0 ∨ b.toNat / 2 ^ 63 % 2 = 1 := by omega
  rcases hcases with h | h
  · have hzero : @unpackSign Format.binary64 b = 0#1 :=
      BitVec.eq_of_toNat_eq (hbit.trans h)
    rw [hzero, h]
    rfl
  · have hone : @unpackSign Format.binary64 b = 1#1 :=
      BitVec.eq_of_toNat_eq (hbit.trans h)
    rw [hone, h]
    rfl

theorem parts_eq (x : Float) : parts x = .ofUnpacked x.toModel.unpack := by
  have hbits : x.toBits.toNat = x.toModel.toBits.toBitVec.toNat := rfl
  have hexponent := toNat_unpackExponent x.toModel.toBits.toBitVec
  have hmantissa := toNat_unpackMantissa x.toModel.toBits.toBitVec
  rw [parts, hbits]
  simp only [Float.Model.unpack, UnpackedFloat.unpack, bits_eq_allOnes_iff, bits_eq_zero_iff,
    hexponent, hmantissa]
  rw [← ofBitVec_unpackSign]
  split
  · split <;> rfl
  · split
    · split
      · next h => simp only [Parts.ofUnpacked, h]
      · next h _ => simp only [Parts.ofUnpacked, h, Format.exponentBias]; norm_num
    · simp only [Parts.ofUnpacked, Format.exponentBias, toNat_append_one, hmantissa]; norm_num

/-! ### What a double holds -/

/-- `m · 2^e` is a double: it has at most 53 bits, exactly so many above the least exponent, and the
exponent is in range. -/
structure Fits (m : Nat) (e : Int) : Prop where
  lt : m < 2 ^ 53
  low : -1074 ≤ e
  high : e ≤ 971
  full : 2 ^ 52 ≤ m ∨ e = -1074

theorem log2_of_full (hm : 2 ^ 52 ≤ m) (hlt : m < 2 ^ 53) : m.log2 = 52 :=
  (Nat.log2_eq_iff (by omega)).mpr ⟨hm, hlt⟩

/-- Packing loses nothing of a double. -/
theorem unpack_pack (hpos : 0 < m) (h : Fits m e) :
    (Float.Model.pack (.finite s m e hpos)).unpack = .finite s m e hpos := by
  have hlt := h.lt
  have hlow := h.low
  have hhigh := h.high
  show UnpackedFloat.unpack Format.binary64 (UnpackedFloat.pack Format.binary64 _) = _
  have hbiased : (e + (Format.binary64.exponentBias : Int) +
      (Format.binary64.mantissaBitsWithoutImplicit : Int)).toNat = (e + 1075).toNat := by
    simp only [Format.exponentBias]
    norm_num
    omega
  have hsign : Sign.ofBitVec s.toBitVec = s := by cases s <;> rfl
  simp only [UnpackedFloat.pack, hbiased]
  rw [if_neg (by norm_num; omega)]
  -- a mantissa of full length is written without its first bit, which the exponent field stands for; a
  -- shorter one is that of a double below the smallest exponent, whose field is zero
  by_cases hfull : 2 ^ 52 ≤ m
  · have hexponent : (BitVec.ofNat 11 (e + 1075).toNat).toNat = (e + 1075).toNat := by
      rw [BitVec.toNat_ofNat]
      omega
    -- the exponent field is none of the two that stand for something else
    have hnone : BitVec.ofNat 11 (e + 1075).toNat ≠ -1#11 := by
      rw [Ne, bits_eq_allOnes_iff, hexponent]
      omega
    have hnzero : BitVec.ofNat 11 (e + 1075).toNat ≠ 0#11 := by
      rw [Ne, bits_eq_zero_iff, hexponent]
      omega
    -- the first bit is put back in front
    have hmantissa : (1#1 ++ BitVec.ofNat 52 m).toNat = m := by
      rw [toNat_append_one, BitVec.toNat_ofNat]
      omega
    rw [log2_of_full hfull hlt, if_pos (show 52 + 1 = Format.binary64.mantissaBits from rfl)]
    unfold UnpackedFloat.unpack
    simp only [unpackMantissa_packComponents, unpackExponent_packComponents,
      unpackSign_packComponents, if_neg hnone, if_neg hnzero, hmantissa, hexponent, hsign]
    congr 1
    simp only [Format.exponentBias]
    norm_num
    omega
  · obtain rfl : e = -1074 := h.full.resolve_left hfull
    have hlog : m.log2 + 1 ≠ Format.binary64.mantissaBits := by
      have hlog := (Nat.log2_lt (k := 52) (Nat.ne_of_gt hpos)).mpr (by omega)
      simp only [Format.mantissaBits]
      omega
    have hmantissa : (BitVec.ofNat 52 m).toNat = m := by
      rw [BitVec.toNat_ofNat]
      omega
    have hne : BitVec.ofNat 52 m ≠ 0#52 := by
      rw [Ne, bits_eq_zero_iff, hmantissa]
      exact Nat.ne_of_gt hpos
    have hnone : 0#11 ≠ -1#11 := by decide
    rw [if_neg hlog]
    unfold UnpackedFloat.unpack
    simp only [unpackMantissa_packComponents, unpackExponent_packComponents,
      unpackSign_packComponents, if_neg hnone, hmantissa, hsign]
    rw [if_pos trivial, dif_neg hne]
    rfl

/-- An exponent that is too large makes an infinity. -/
theorem unpack_pack_of_lt (hpos : 0 < m) (h : 971 < e) :
    (Float.Model.pack (.finite s m e hpos)).unpack = .infinity s := by
  show UnpackedFloat.unpack Format.binary64 (UnpackedFloat.pack Format.binary64 _) = _
  have hbiased : (e + (Format.binary64.exponentBias : Int) +
      (Format.binary64.mantissaBitsWithoutImplicit : Int)).toNat = (e + 1075).toNat := by
    simp only [Format.exponentBias]
    norm_num
    omega
  simp only [UnpackedFloat.pack, hbiased]
  rw [if_pos (by norm_num; omega)]
  cases s <;> rfl

theorem fits_of_parts (h : parts x = .finite negative m e) : Fits m e := by
  simp only [parts] at h
  split at h
  · split at h <;> cases h
  · split at h <;> obtain ⟨-, rfl, rfl⟩ := Parts.finite.inj h
    · exact ⟨by omega, by omega, by omega, .inr rfl⟩
    · exact ⟨by omega, by omega, by omega, .inl (by omega)⟩

/-- A double with finite parts is a zero or a finite number once it is unpacked. -/
theorem unpack_of_parts (h : parts x = .finite negative m e) :
    ∃ s, (s == Sign.negative) = negative ∧
      ((m = 0 ∧ x.toModel.unpack = .zero s) ∨ ∃ hpos, x.toModel.unpack = .finite s m e hpos) := by
  rw [parts_eq] at h
  rcases hu : x.toModel.unpack with s | - | s | ⟨s, m', e', hpos⟩ <;> rw [hu] at h
  · cases h
  · cases h
  · obtain ⟨hs, hm, -⟩ := Parts.finite.inj h
    exact ⟨s, hs, .inl ⟨hm.symm, rfl⟩⟩
  · obtain ⟨hs, rfl, rfl⟩ := Parts.finite.inj h
    exact ⟨s, hs, .inr ⟨hpos, rfl⟩⟩

theorem unpack_of_infinite (h : parts x = .infinite negative) :
    ∃ s, (s == Sign.negative) = negative ∧ x.toModel.unpack = .infinity s := by
  rw [parts_eq] at h
  rcases hu : x.toModel.unpack with s | - | s | ⟨s, m, e, hpos⟩ <;> rw [hu] at h
  · exact ⟨s, Parts.infinite.inj h, rfl⟩
  · cases h
  · cases h
  · cases h

end Stencil.Number
