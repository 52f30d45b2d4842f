/-
Stencil/Proofs/ArrayOutput.lean

The items of an array as output.  `joinTrimmed` is what the array form is for: every item is
trimmed, items without a value and blank ones are left out, and the others are escaped and
stand with the separator between them.  The form itself brings an item to a text before it
is trimmed, so that an item without a value counts as the word for it.

The main result, `joinItems_eq_iff`, says that the two agree exactly on the arrays all of
whose items have a value.  Each item adds to the length what it is weighed with
(`length_joinTexts`), so a word too many is never made up for elsewhere.
-/
import Mathlib
import Stencil.Output
import Stencil.Proofs.ArrayCoercion
import Stencil.Proofs.Unescaping

namespace Stencil

variable {separator : List Char} {item : Value} {items : List Value}

/-! ### Joining texts -/

/-- The texts that are not empty, escaped, with `separator` between them. -/
def joinTexts (separator : List Char) (texts : List (List Char)) : List Char :=
  separator.intercalate ((texts.filter (!·.isEmpty)).map Escape.html)

/-- The items of an array, trimmed and escaped, with `separator` between them; neither blank items nor
those without a value count. -/
def joinTrimmed (separator : List Char) (items : List Value) : List Char :=
  joinTexts separator (items.map Value.trimmed)

theorem joinItems_array (separator : List Char) (id : Identity) (items : List Value) :
    joinItems separator (.array id items) =
      joinTexts separator (items.map fun item => Text.trimValue item.chars) :=
  rfl

/-! ### How long joined texts are -/

theorem length_intercalate {parts : List (List Char)} (hne : parts ≠ []) :
    (separator.intercalate parts).length + separator.length =
      (parts.map fun part => part.length + separator.length).sum := by
  induction parts with
  | nil => exact absurd rfl hne
  | cons part parts ih =>
    cases parts with
    | nil => simp
    | cons next parts =>
      rw [List.intercalate_cons_cons, List.map_cons, List.sum_cons, ← ih (List.cons_ne_nil _ _),
        List.length_append, List.length_append]
      omega

/-- What a text adds to the length of the joined texts, a separator included. -/
def weight (separator text : List Char) : Nat :=
  if text.isEmpty then 0 else (Escape.html text).length + separator.length

theorem sum_weight (separator : List Char) (texts : List (List Char)) :
    (texts.map (weight separator)).sum =
      (((texts.filter (!·.isEmpty)).map Escape.html).map fun part =>
        part.length + separator.length).sum := by
  induction texts with
  | nil => rfl
  | cons text texts ih => cases text <;> simp [weight, ih]

theorem length_joinTexts (separator : List Char) (texts : List (List Char)) :
    (joinTexts separator texts).length = (texts.map (weight separator)).sum - separator.length := by
  rw [sum_weight, joinTexts]
  generalize (texts.filter (!·.isEmpty)).map Escape.html = parts
  by_cases hne : parts = []
  · simp [hne]
  · rw [← length_intercalate hne, Nat.add_sub_cancel]

/-! ### Items without a value -/

theorem trimmed_of_isNullish (h : item.isNullish = true) : item.trimmed = [] := if_pos h

theorem trimmed_of_not_isNullish (h : item.isNullish = false) :
    item.trimmed = Text.trimValue item.chars := by
  rw [Value.trimmed, h]
  rfl

/-- The word for an item without a value is not blank. -/
theorem lt_weight_of_isNullish (separator : List Char) (h : item.isNullish = true) :
    separator.length < weight separator (Text.trimValue item.chars) := by
  cases item with
  | undefined => exact Nat.lt_add_of_pos_left (by decide)
  | null => exact Nat.lt_add_of_pos_left (by decide)
  | _ => cases h

theorem weight_trimmed_le (separator : List Char) (item : Value) :
    weight separator item.trimmed ≤ weight separator (Text.trimValue item.chars) := by
  by_cases h : item.isNullish = true
  · rw [trimmed_of_isNullish h]
    exact Nat.zero_le _
  · rw [trimmed_of_not_isNullish (Bool.eq_false_iff.mpr h)]

theorem sum_weight_trimmed_le (separator : List Char) (items : List Value) :
    ((items.map Value.trimmed).map (weight separator)).sum ≤
      ((items.map fun item => Text.trimValue item.chars).map (weight separator)).sum := by
  rw [List.map_map, List.map_map]
  exact List.sum_le_sum fun item _ => weight_trimmed_le separator item

/-- An item without a value makes the output of the form longer than it is to be. -/
theorem length_joinTrimmed_lt (separator : List Char) (id : Identity) (hmem : item ∈ items)
    (h : item.isNullish = true) :
    (joinTrimmed separator items).length < (joinItems separator (.array id items)).length := by
  obtain ⟨before, after, rfl⟩ := List.append_of_mem hmem
  have hbefore := sum_weight_trimmed_le separator before
  have hafter := sum_weight_trimmed_le separator after
  have hword := lt_weight_of_isNullish separator h
  have hnothing : weight separator item.trimmed = 0 := by
    rw [trimmed_of_isNullish h]
    rfl
  rw [joinItems_array, joinTrimmed, length_joinTexts, length_joinTexts]
  simp only [List.map_append, List.map_cons, List.sum_append, List.sum_cons, hnothing]
  omega

theorem joinItems_eq_joinTrimmed (id : Identity) (h : ∀ item ∈ items, item.isNullish = false) :
    joinItems separator (.array id items) = joinTrimmed separator items := by
  rw [joinItems_array, joinTrimmed]
  congr 1
  exact List.map_congr_left fun item hitem => (trimmed_of_not_isNullish (h item hitem)).symm

theorem joinItems_asText (separator : List Char) (id : Identity) (items : List Value) :
    joinItems separator (.array id (items.map Value.asText)) =
      joinItems separator (.array id items) := by
  rw [joinItems_array, joinItems_array, List.map_map]
  congr 1
  exact List.map_congr_left fun item _ => congrArg Text.trimValue item.chars_asText

/-- **The array form trims its items, leaves out the blank ones, and escapes and joins the others.  It
does the same for items without a value exactly if there are none: they count as the words for them.** -/
theorem joinItems_eq_iff (separator : List Char) (id : Identity) (items : List Value) :
    (joinItems separator (.array id items) = joinTrimmed separator items ↔
      ∀ item ∈ items, item.isNullish = false) ∧
    joinItems separator (.array id items) = joinTrimmed separator (items.map Value.asText) := by
  refine ⟨⟨fun heq item hitem => ?_, joinItems_eq_joinTrimmed id⟩, ?_⟩
  · by_contra hnullish
    have hlt := length_joinTrimmed_lt separator id hitem (by simpa using hnullish)
    rw [heq] at hlt
    exact Nat.lt_irrefl _ hlt
  · rw [← joinItems_asText]
    refine joinItems_eq_joinTrimmed id fun item hitem => ?_
    obtain ⟨v, -, rfl⟩ := List.mem_map.mp hitem
    rfl

/-- An item without a value is written as a word, with a separator in front of it. -/
theorem joinItems_null_item :
    let items := [Value.text " a ", .null]
    joinItems [','] (.array (.given 0) items) = "a,null".toList ∧
    joinTrimmed [','] items = "a".toList := by
  decide

end Stencil
