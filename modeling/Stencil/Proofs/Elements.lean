/-
Stencil/Proofs/Elements.lean

Reading single elements.  Arrays and texts are read by keys, and a key is a text: that of
an element is a numeral of its index.  Besides the decimal of the index, which is what a
loop shows and what a number as an index is made, a numeral may have a plus sign and zeros
in front (`readIndex?_eq_some_iff`).  Objects know nothing of this; their entries are found
by their names only.

The main result is `member?_element_iff`: which keys find an element, which one, and that
these are the decimals of the indices exactly as far as no key has a sign or zeros in front.
-/
import Stencil.Proofs.WholeDisplay
import Stencil.Value.Entries

namespace Stencil

variable {i j : Nat} {cs ds : List Char}

/-! ### Numerals of indices -/

namespace Number

/-- The text is the decimal of `i`, possibly with zeros in front of it, and a plus sign in front of
these. -/
def SpellsIndex (cs : List Char) (i : Nat) : Prop :=
  ∃ sign zeros, (sign = [] ∨ sign = ['+']) ∧ cs = sign ++ List.replicate zeros '0' ++ digitsOf i

/-- The text is a numeral of `i`, but not its decimal. -/
def PadsIndex (cs : List Char) (i : Nat) : Prop := SpellsIndex cs i ∧ cs ≠ digitsOf i

theorem spellsIndex_digitsOf (i : Nat) : SpellsIndex (digitsOf i) i := ⟨[], 0, .inl rfl, rfl⟩

theorem natOfDigits_concat (ds : List Char) (c : Char) :
    natOfDigits (ds ++ [c]) = 10 * natOfDigits ds + (c.toNat - '0'.toNat) := by
  rw [natOfDigits, List.foldl_append]
  rfl

theorem natOfDigits_zeros (zeros : Nat) (ds : List Char) :
    natOfDigits (List.replicate zeros '0' ++ ds) = natOfDigits ds := by
  induction zeros with
  | zero => rfl
  | succ zeros ih =>
    rw [List.replicate_succ, List.cons_append, ← ih]
    rfl

/-- Digits are the decimal of the number that they write, behind some zeros. -/
theorem exists_zeros (hne : ds ≠ []) (hdigits : ∀ c ∈ ds, isDecimalDigit c = true) :
    ∃ zeros, ds = List.replicate zeros '0' ++ digitsOf (natOfDigits ds) := by
  induction ds using List.reverseRecOn with
  | nil => exact absurd rfl hne
  | append_singleton ds c ih =>
    have hc : isDecimalDigit c = true := hdigits c (by simp)
    rw [natOfDigits_concat]
    rcases List.eq_nil_or_concat ds with rfl | ⟨_, _, hds⟩
    · refine ⟨0, ?_⟩
      show [c] = digitsOf (10 * 0 + _)
      rw [Nat.mul_zero, Nat.zero_add, digitsOf_digit hc]
    · obtain ⟨zeros, hzeros⟩ := ih (by simp [hds]) fun d hd => hdigits d (by simp [hd])
      generalize natOfDigits ds = m at hzeros ⊢
      subst hzeros
      rcases Nat.eq_zero_or_pos m with rfl | hpos
      · -- all digits so far are zeros
        refine ⟨zeros + 1, ?_⟩
        rw [Nat.mul_zero, Nat.zero_add, digitsOf_digit hc, List.replicate_succ']
        rfl
      · exact ⟨zeros, by rw [digitsOf_concat hpos hc, List.append_assoc]⟩

/-- The number that some digits write, if it is below `2^64`. -/
def wholeOf? (ds : List Char) : Option Nat :=
  if ds.isEmpty || !ds.all isDecimalDigit then none
  else if natOfDigits ds < 2 ^ 64 then some (natOfDigits ds) else none

theorem wholeOf?_eq_some_iff :
    wholeOf? ds = some i ↔ i < 2 ^ 64 ∧ ∃ zeros, ds = List.replicate zeros '0' ++ digitsOf i := by
  constructor
  · intro h
    rw [wholeOf?] at h
    split at h
    · cases h
    · next hds =>
      simp only [Bool.or_eq_true, Bool.not_eq_true', not_or, Bool.not_eq_true, Bool.not_eq_false,
        List.isEmpty_eq_false_iff, List.all_eq_true] at hds
      split at h
      · next hlt =>
        cases h
        exact ⟨hlt, exists_zeros hds.1 hds.2⟩
      · cases h
  · rintro ⟨hlt, zeros, rfl⟩
    have hne : (List.replicate zeros '0' ++ digitsOf i).isEmpty = false := by
      rw [List.isEmpty_eq_false_iff]
      exact List.append_ne_nil_of_right_ne_nil _ Nat.toDigits_ne_nil
    have hdigits : (List.replicate zeros '0' ++ digitsOf i).all isDecimalDigit = true := by
      refine List.all_eq_true.mpr fun c hc => ?_
      rcases List.mem_append.mp hc with hc | hc
      · rw [List.eq_of_mem_replicate hc]
        rfl
      · exact isDecimalDigit_of_mem_digitsOf hc
    rw [wholeOf?, hne, hdigits, natOfDigits_zeros, natOfDigits_digitsOf]
    exact if_pos hlt

theorem readIndex?_plus (ds : List Char) : readIndex? ('+' :: ds) = wholeOf? ds := rfl

theorem readIndex?_unsigned (h : cs.head? ≠ some '+') : readIndex? cs = wholeOf? cs := by
  refine readIndex?.eq_2 cs fun rest hrest => ?_
  rw [hrest] at h
  exact h rfl

/-- The texts that are read as an index. -/
theorem readIndex?_eq_some_iff : readIndex? cs = some i ↔ i < 2 ^ 64 ∧ SpellsIndex cs i := by
  constructor
  · intro h
    by_cases hsign : cs.head? = some '+'
    · obtain ⟨ds, rfl⟩ := List.head?_eq_some_iff.mp hsign
      obtain ⟨hlt, zeros, hds⟩ := wholeOf?_eq_some_iff.mp (readIndex?_plus ds ▸ h)
      exact ⟨hlt, ['+'], zeros, .inr rfl, by rw [hds]; rfl⟩
    · obtain ⟨hlt, zeros, hds⟩ := wholeOf?_eq_some_iff.mp (readIndex?_unsigned hsign ▸ h)
      exact ⟨hlt, [], zeros, .inl rfl, hds⟩
  · rintro ⟨hlt, sign, zeros, rfl | rfl, rfl⟩
    · have hdigits := wholeOf?_eq_some_iff.mpr ⟨hlt, zeros, rfl⟩
      -- the first character is a digit
      have hsign : (List.replicate zeros '0' ++ digitsOf i).head? ≠ some '+' := by
        cases zeros with
        | zero =>
          intro hhead
          have hdigit := isDecimalDigit_of_mem_digitsOf (List.mem_of_head? hhead)
          cases hdigit
        | succ zeros => exact nofun
      exact (readIndex?_unsigned hsign).trans hdigits
    · exact wholeOf?_eq_some_iff.mpr ⟨hlt, zeros, rfl⟩

theorem SpellsIndex.unique (h : SpellsIndex cs i) (h' : SpellsIndex cs j) (hi : i < 2 ^ 64)
    (hj : j < 2 ^ 64) : i = j := by
  have hread := readIndex?_eq_some_iff.mpr ⟨hi, h⟩
  rw [readIndex?_eq_some_iff.mpr ⟨hj, h'⟩] at hread
  exact (Option.some.inj hread).symm

end Number

/-! ### Elements -/

namespace Value

variable {v item : Value} {elements : List Value} {key : String}

/-- What arrays and texts consist of: the items, or the characters as texts. -/
def elements? : Value → Option (List Value)
  | .array _ items => some items
  | .text t => some (t.toList.map fun c => .ofChars [c])
  | _ => none

theorem member?_eq (h : v.elements? = some elements) (hkey : key ≠ "length") :
    v.member? key = (Number.readIndex? key.toList).bind (elements[·]?) := by
  cases v with
  | array id items =>
    cases h
    exact if_neg hkey
  | text t =>
    cases h
    simp only [member?, if_neg hkey, List.getElem?_map]
  | _ => cases h

theorem member?_eq_some_iff (h : v.elements? = some elements) (hkey : key ≠ "length") :
    v.member? key = some item ↔
      ∃ i < 2 ^ 64, Number.SpellsIndex key.toList i ∧ elements[i]? = some item := by
  rw [member?_eq h hkey, Option.bind_eq_some_iff]
  simp only [Number.readIndex?_eq_some_iff, and_assoc]

theorem eq_repr_iff : key = Nat.repr i ↔ key.toList = Number.digitsOf i := by
  rw [← String.toList_inj]
  exact Iff.of_eq (congrArg _ String.toList_ofList)

/-- A position as an index. -/
theorem member?_ofNat (h : v.elements? = some elements) (hi : i < 2 ^ 53) :
    v.member? (Value.ofNat i).display = elements[i]? := by
  have hdecimal : (Nat.repr i).toList = Number.digitsOf i := eq_repr_iff.mp rfl
  have hread := Number.readIndex?_eq_some_iff.mpr
    ⟨show i < 2 ^ 64 by omega, Number.spellsIndex_digitsOf i⟩
  have hkey : Nat.repr i ≠ "length" := by
    intro heq
    have hdigit : isDecimalDigit 'l' = true :=
      isDecimalDigit_of_mem_digitsOf (n := i) (by rw [← hdecimal, heq]; decide)
    cases hdigit
  rw [display_ofNat hi, member?_eq h hkey, hdecimal, hread]
  rfl

/-- The keys that a loop shows are found, each with its own item. -/
theorem member?_of_mem_entries (h : v.elements? = some elements) (hlength : elements.length ≤ 2 ^ 53)
    {entry : Value × Value} (hentry : entry ∈ v.entries) :
    v.member? entry.1.display = some entry.2 := by
  cases v with
  | array id items =>
    cases h
    obtain ⟨⟨item, i⟩, hmem, rfl⟩ := List.mem_map.mp hentry
    obtain ⟨hi, hitem⟩ := List.mem_zipIdx' hmem
    rw [member?_ofNat rfl (Nat.lt_of_lt_of_le hi hlength), hitem, List.getElem?_eq_getElem hi]
  | text t => cases hentry
  | _ => cases h

/-- Where a key is no numeral with a sign or zeros in front, it finds an element exactly if it is the
decimal of an index. -/
theorem isSome_member?_iff_decimal (h : v.elements? = some elements) (hkey : key ≠ "length") :
    ((v.member? key).isSome = true ↔ ∃ i < elements.length, i < 2 ^ 64 ∧ key = Nat.repr i) ↔
      ∀ i < elements.length, i < 2 ^ 64 → ¬ Number.PadsIndex key.toList i := by
  have hfound : (v.member? key).isSome = true ↔
      ∃ i < elements.length, i < 2 ^ 64 ∧ Number.SpellsIndex key.toList i := by
    rw [Option.isSome_iff_exists]
    constructor
    · rintro ⟨item, hitem⟩
      obtain ⟨i, hi, hspells, hget⟩ := (member?_eq_some_iff h hkey).mp hitem
      exact ⟨i, (List.getElem?_eq_some_iff.mp hget).1, hi, hspells⟩
    · rintro ⟨i, hlength, hi, hspells⟩
      exact ⟨_, (member?_eq_some_iff h hkey).mpr ⟨i, hi, hspells, List.getElem?_eq_getElem hlength⟩⟩
  rw [hfound]
  constructor
  · rintro hlaw i hlength hi ⟨hspells, hne⟩
    obtain ⟨j, -, hj, hdecimal⟩ := hlaw.mp ⟨i, hlength, hi, hspells⟩
    rw [eq_repr_iff] at hdecimal
    have hsame := hspells.unique (hdecimal ▸ Number.spellsIndex_digitsOf j) hi hj
    exact hne (hsame ▸ hdecimal)
  · intro hplain
    constructor
    · rintro ⟨i, hlength, hi, hspells⟩
      refine ⟨i, hlength, hi, eq_repr_iff.mpr ?_⟩
      by_contra hne
      exact hplain i hlength hi ⟨hspells, hne⟩
    · rintro ⟨i, hlength, hi, hdecimal⟩
      exact ⟨i, hlength, hi, eq_repr_iff.mp hdecimal ▸ Number.spellsIndex_digitsOf i⟩

/-- **Arrays and texts have an element at every numeral of its index: at the decimal, which positions and
loops show, and at those with a plus sign or zeros in front, which are the only other keys.** -/
theorem member?_element_iff (h : v.elements? = some elements) :
    (∀ key, key ≠ "length" →
      (∀ item, v.member? key = some item ↔
        ∃ i < 2 ^ 64, Number.SpellsIndex key.toList i ∧ elements[i]? = some item) ∧
      (((v.member? key).isSome = true ↔ ∃ i < elements.length, i < 2 ^ 64 ∧ key = Nat.repr i) ↔
        ∀ i < elements.length, i < 2 ^ 64 → ¬ Number.PadsIndex key.toList i)) ∧
    (∀ i < 2 ^ 53, v.member? (Value.ofNat i).display = elements[i]?) ∧
    (elements.length ≤ 2 ^ 53 → ∀ entry ∈ v.entries, v.member? entry.1.display = some entry.2) :=
  ⟨fun _ hkey => ⟨fun _ => member?_eq_some_iff h hkey, isSome_member?_iff_decimal h hkey⟩,
    fun _ hi => member?_ofNat h hi, fun hlength _ hentry => member?_of_mem_entries h hlength hentry⟩

/-- A text and an array, read by a numeral with a sign and a zero in front and by the keys of a loop. -/
theorem member?_element_iff_padded :
    let v := array (.given 0) [.text "é", .null]
    Value.elements? (.text "aé") = some [.text "a", .text "é"] ∧ v.elements? = some [.text "é", .null] ∧
    "+01" ≠ "length" ∧ Number.SpellsIndex "+01".toList 1 ∧
    Value.member? (.text "aé") "+01" = some (.text "é") ∧
    v.member? (Value.ofNat 1).display = some .null ∧
    (∀ entry ∈ v.entries, v.member? entry.1.display = some entry.2) := by
  have hspells : Number.SpellsIndex "+01".toList 1 := ⟨['+'], 1, .inr rfl, rfl⟩
  obtain ⟨hkeys, -, -⟩ := member?_element_iff (v := .text "aé") rfl
  obtain ⟨-, hindices, hentries⟩ := member?_element_iff (v := array (.given 0) [.text "é", .null]) rfl
  exact ⟨rfl, rfl, by decide, hspells, ((hkeys "+01" (by decide)).1 _).mpr ⟨1, by decide, hspells, rfl⟩,
    hindices 1 (by decide), hentries (by decide)⟩

/-- A zero in front: the key is no decimal of an index, and yet it finds the second item. -/
theorem member?_leading_zero :
    let v := array (.given 0) [.bool false, .bool true]
    v.elements? = some [.bool false, .bool true] ∧ v.member? "01" = some (.bool true) ∧
    ¬ ((v.member? "01").isSome = true ↔ ∃ i < 2, "01" = Nat.repr i) := by
  refine ⟨rfl, rfl, fun hlaw => ?_⟩
  obtain ⟨i, hi, hdecimal⟩ := hlaw.mp rfl
  revert i
  decide

end Value

end Stencil
