/-
Stencil/Proofs/PercentDecoding.lean

Reading a component of an address back.  A component holds unreserved characters and, for
every other byte of the text, a percent sign with two upper-case digits
(`percentEncoded_uriComponent`); which bytes these are is a matter of each byte alone
(`uriComponent_eq_flatMap_bytes`).

`percentDecode` is the way back to bytes.  It meets no percent sign but those that were
written, and so it gives the bytes of the text (`percentDecode_uriComponent`), which UTF-8
reads as the text.

The main result is `uriComponent_decodes`.
-/
import Stencil.Proofs.Escaping
import Stencil.Proofs.Lexing
import Stencil.Proofs.Occurrence

namespace Stencil.Escape

open Text

variable {c : Char} {text : List Char}

/-! ### Bytes -/

/-- What a component holds for a byte: the character of the byte if that is unreserved, and its digits
otherwise. -/
def writtenByte (b : UInt8) : List Char :=
  if isUnreserved (Char.ofNat b.toNat) then [Char.ofNat b.toNat] else percentByte b

/-- The unreserved characters are characters of ASCII. -/
theorem toNat_lt_of_isUnreserved (h : isUnreserved c = true) : c.toNat < 128 := by
  have hmarks : ['-', '_', '.', '!', '~', '*', '\'', '(', ')'].all (·.toNat < 128) = true := rfl
  have hbelow : ∀ {last : Char}, last.toNat < 128 → c ≤ last → c.toNat < 128 := fun hlast hle =>
    Nat.lt_of_le_of_lt (UInt32.le_iff_toNat_le.mp (Char.le_def.mp hle)) hlast
  rcases isUnreserved_iff.mp h with ⟨-, h⟩ | ⟨-, h⟩ | ⟨-, h⟩ | h
  · exact hbelow (by decide) h
  · exact hbelow (by decide) h
  · exact hbelow (by decide) h
  · exact of_decide_eq_true (List.all_eq_true.mp hmarks c h)

/-- A character of ASCII is one byte. -/
theorem utf8EncodeChar_ascii (h : c.toNat < 128) : String.utf8EncodeChar c = [UInt8.ofNat c.toNat] := by
  rw [String.utf8EncodeChar]
  exact if_pos (Nat.le_of_lt_succ h)

theorem ofNat_toNat_ascii (h : c.toNat < 128) : Char.ofNat (UInt8.ofNat c.toNat).toNat = c := by
  have hbyte : (UInt8.ofNat c.toNat).toNat = c.toNat :=
    UInt8.toNat_ofNat_of_lt' (Nat.lt_trans h (by decide))
  rw [hbyte, Char.ofNat_toNat]

/-- The bytes of another character are none of ASCII. -/
theorem le_toNat_of_mem_utf8EncodeChar (h : 128 ≤ c.toNat) {b : UInt8}
    (hb : b ∈ String.utf8EncodeChar c) : 128 ≤ b.toNat := by
  have hbyte : ∀ n, 128 ≤ n → n < 256 → 128 ≤ (UInt8.ofNat n).toNat := fun n hle hlt => by
    rwa [UInt8.toNat_ofNat_of_lt' hlt]
  unfold String.utf8EncodeChar at hb
  simp only at hb
  split at hb
  · next hascii => exact absurd hascii (Nat.not_le.mpr h)
  · split at hb
    · simp only [List.mem_cons, List.not_mem_nil, or_false] at hb
      rcases hb with rfl | rfl <;> exact hbyte _ (by omega) (by omega)
    · split at hb
      · simp only [List.mem_cons, List.not_mem_nil, or_false] at hb
        rcases hb with rfl | rfl | rfl <;> exact hbyte _ (by omega) (by omega)
      · simp only [List.mem_cons, List.not_mem_nil, or_false] at hb
        rcases hb with rfl | rfl | rfl | rfl <;> exact hbyte _ (by omega) (by omega)

theorem writtenByte_of_le {b : UInt8} (h : 128 ≤ b.toNat) : writtenByte b = percentByte b := by
  have hcode : (Char.ofNat b.toNat).toNat = b.toNat := by
    have hb := b.toNat_lt
    rw [Char.toNat_ofNat, if_pos]
    exact .inl (by omega)
  rw [writtenByte, if_neg]
  intro hfree
  have hascii := toNat_lt_of_isUnreserved hfree
  omega

theorem flatMap_writtenByte (c : Char) :
    (String.utf8EncodeChar c).flatMap writtenByte =
      if isUnreserved c then [c] else (String.utf8EncodeChar c).flatMap percentByte := by
  by_cases hascii : c.toNat < 128
  · rw [utf8EncodeChar_ascii hascii]
    simp only [List.flatMap_singleton, writtenByte, ofNat_toNat_ascii hascii]
  · have hfree : isUnreserved c = false :=
      Bool.eq_false_iff.mpr fun h => hascii (toNat_lt_of_isUnreserved h)
    rw [hfree, if_neg Bool.false_ne_true]
    exact List.flatMap_congr fun b hb =>
      writtenByte_of_le (le_toNat_of_mem_utf8EncodeChar (Nat.le_of_not_lt hascii) hb)

/-- A component is written byte by byte. -/
theorem uriComponent_eq_flatMap_bytes (text : List Char) :
    uriComponent text = (utf8 text).flatMap writtenByte := by
  rw [utf8, List.flatMap_assoc, uriComponent]
  congr 1
  funext c
  exact (flatMap_writtenByte c).symm

/-! ### The form of a component -/

/-- A digit of base sixteen, upper-case where it is a letter. -/
def isUpperHexDigit (c : Char) : Bool := "0123456789ABCDEF".toList.contains c

/-- A text of unreserved characters and of percent signs with two upper-case digits. -/
inductive PercentEncoded : List Char → Prop
  | nil : PercentEncoded []
  | unreserved {c : Char} {rest : List Char} :
      isUnreserved c = true → PercentEncoded rest → PercentEncoded (c :: rest)
  | byte {high low : Char} {rest : List Char} :
      isUpperHexDigit high = true → isUpperHexDigit low = true → PercentEncoded rest →
      PercentEncoded ('%' :: high :: low :: rest)

theorem isUpperHexDigit_hexDigit {n : Nat} (h : n < 16) : isUpperHexDigit (hexDigit n) = true := by
  revert n
  decide

theorem percentEncoded_bytes {bs : List UInt8} {rest : List Char} (hrest : PercentEncoded rest) :
    PercentEncoded (bs.flatMap percentByte ++ rest) := by
  induction bs with
  | nil => exact hrest
  | cons b bs ih =>
    have hb : b.toNat < 256 := b.toNat_lt
    exact .byte (isUpperHexDigit_hexDigit (by omega)) (isUpperHexDigit_hexDigit (by omega)) ih

theorem percentEncoded_uriComponent (text : List Char) : PercentEncoded (uriComponent text) := by
  induction text with
  | nil => exact .nil
  | cons c text ih =>
    rw [uriComponent, List.flatMap_cons]
    split
    · next hc => exact .unreserved hc ih
    · exact percentEncoded_bytes ih

/-! ### The way back -/

/-- The number below sixteen that a digit stands for, of either case. -/
def hexValue? (c : Char) : Option Nat :=
  if '0' ≤ c ∧ c ≤ '9' then some (c.toNat - '0'.toNat)
  else if 'A' ≤ c ∧ c ≤ 'F' then some (c.toNat - 'A'.toNat + 10)
  else if 'a' ≤ c ∧ c ≤ 'f' then some (c.toNat - 'a'.toNat + 10)
  else none

/-- The bytes of a component: a percent sign with two digits stands for the byte of these, and every other
character for its own bytes. -/
def percentDecode : List Char → List UInt8
  | '%' :: high :: low :: rest =>
    match hexValue? high, hexValue? low with
    | some h, some l => UInt8.ofNat (16 * h + l) :: percentDecode rest
    -- a sign without digits stands for itself, and one of the next two characters may be a sign too
    | _, _ => String.utf8EncodeChar '%' ++ percentDecode (high :: low :: rest)
  | c :: rest => String.utf8EncodeChar c ++ percentDecode rest
  | [] => []

theorem hexValue?_hexDigit {n : Nat} (h : n < 16) : hexValue? (hexDigit n) = some n := by
  revert n
  decide

theorem percentDecode_byte (b : UInt8) (rest : List Char) :
    percentDecode (percentByte b ++ rest) = b :: percentDecode rest := by
  have hb : b.toNat < 256 := b.toNat_lt
  have hvalue : 16 * (b.toNat / 16) + b.toNat % 16 = b.toNat := Nat.div_add_mod _ _
  show percentDecode ('%' :: hexDigit (b.toNat / 16) :: hexDigit (b.toNat % 16) :: rest) = _
  rw [percentDecode, hexValue?_hexDigit (by omega), hexValue?_hexDigit (by omega)]
  simp only [hvalue, UInt8.ofNat_toNat]

theorem percentDecode_bytes (bs : List UInt8) (rest : List Char) :
    percentDecode (bs.flatMap percentByte ++ rest) = bs ++ percentDecode rest := by
  induction bs with
  | nil => rfl
  | cons b bs ih =>
    rw [List.flatMap_cons, List.append_assoc, percentDecode_byte, ih, List.cons_append]

theorem percentDecode_other (hc : c ≠ '%') (rest : List Char) :
    percentDecode (c :: rest) = String.utf8EncodeChar c ++ percentDecode rest :=
  percentDecode.eq_2 c rest fun _ _ _ h _ => hc h

/-- Decoding a component gives the bytes of the text. -/
theorem percentDecode_uriComponent (text : List Char) :
    percentDecode (uriComponent text) = utf8 text := by
  induction text with
  | nil => rfl
  | cons c text ih =>
    rw [uriComponent, List.flatMap_cons, ← uriComponent, utf8, List.flatMap_cons, ← utf8]
    split
    · next hc =>
      -- the percent sign is not unreserved, so none is taken for the beginning of a byte
      have hpercent : c ≠ '%' := by
        rintro rfl
        cases hc
      rw [List.singleton_append, percentDecode_other hpercent, ih]
    · rw [percentDecode_bytes, ih]

/-! ### Texts that stand for themselves -/

/-- A character that is not unreserved takes at least one byte, and so three characters. -/
theorem three_le_length (c : Char) : 3 ≤ ((String.utf8EncodeChar c).flatMap percentByte).length := by
  have hpos := c.utf8Size_pos
  rw [← String.length_utf8EncodeChar] at hpos
  obtain ⟨b, bs, hbs⟩ := List.exists_cons_of_length_pos hpos
  rw [hbs, List.flatMap_cons, List.length_append]
  exact Nat.le_add_right 3 _

theorem length_le_uriComponent (text : List Char) : text.length ≤ (uriComponent text).length := by
  induction text with
  | nil => exact Nat.le_refl 0
  | cons c text ih =>
    rw [uriComponent, List.flatMap_cons, ← uriComponent, List.length_append, List.length_cons]
    split
    · rw [List.length_singleton]
      omega
    · have hthree := three_le_length c
      omega

theorem uriComponent_eq_self_iff (text : List Char) :
    uriComponent text = text ↔ ∀ c ∈ text, isUnreserved c = true := by
  induction text with
  | nil => exact iff_of_true rfl nofun
  | cons c text ih =>
    rw [List.forall_mem_cons, ← ih, uriComponent, List.flatMap_cons, ← uriComponent]
    by_cases hc : isUnreserved c = true
    · rw [if_pos hc, List.singleton_append, List.cons_eq_cons]
      exact ⟨fun h => ⟨hc, h.2⟩, fun h => ⟨rfl, h.2⟩⟩
    · -- what is written for `c` is longer than `c`, and no rest makes up for that
      rw [if_neg hc]
      refine iff_of_false (fun h => ?_) fun h => hc h.1
      have hthree := three_le_length c
      have hrest := length_le_uriComponent text
      have hlength := congrArg List.length h
      rw [List.length_append, List.length_cons] at hlength
      omega

/-- **A component of an address holds only unreserved characters and upper-case percent escapes, byte by
byte and part by part, and decoding it gives the text back.**  The unreserved characters are the letters
and digits of ASCII and nine marks. -/
theorem uriComponent_decodes :
    (∀ c, isUnreserved c = true ↔ ('a' ≤ c ∧ c ≤ 'z') ∨ ('A' ≤ c ∧ c ≤ 'Z') ∨ ('0' ≤ c ∧ c ≤ '9') ∨
      c ∈ ['-', '_', '.', '!', '~', '*', '\'', '(', ')']) ∧
    (∀ text, uriComponent text = (utf8 text).flatMap writtenByte) ∧
    (∀ text, PercentEncoded (uriComponent text)) ∧
    (∀ s : String,
      String.fromUTF8? (percentDecode (uriComponent s.toList)).toByteArray = some s) ∧
    (∀ a b, uriComponent (a ++ b) = uriComponent a ++ uriComponent b) ∧
    ∀ text, uriComponent text = text ↔ ∀ c ∈ text, isUnreserved c = true := by
  refine ⟨fun c => isUnreserved_iff, uriComponent_eq_flatMap_bytes, percentEncoded_uriComponent,
    fun s => ?_, fun a b => List.flatMap_append, uriComponent_eq_self_iff⟩
  have hbytes : (percentDecode (uriComponent s.toList)).toByteArray = s.toByteArray := by
    rw [percentDecode_uriComponent]
    show s.toList.utf8Encode = _
    rw [← String.toByteArray_ofList, String.ofList_toList]
  rw [hbytes, String.fromUTF8?, dif_pos s.isValidUTF8]
  rfl

/-- A character of two bytes between reserved ones. -/
example : uriComponent "ü/?".toList = "%C3%BC%2F%3F".toList := by decide

end Stencil.Escape
