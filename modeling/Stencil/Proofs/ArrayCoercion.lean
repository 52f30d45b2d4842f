/-
Stencil/Proofs/ArrayCoercion.lean

Arrays as numbers.  An array is made a number directly, by how many items it has, and it
has a text of its own.  The two ways agree: of several items the text has a comma, which no
numeral has (`ofText_eq_nan`), and of one item it is the text of the item.  The one
exception is an array of a single item without a value: its text is empty and so stands for
zero, but the number is made of the word for the item, which is no numeral.

The main result is `array_coerces_iff`, over all arrays and over everything that looks at
the number of a value.
-/
import Stencil.Evaluate
import Stencil.Output
import Stencil.Proofs.TokenPlaces

namespace Stencil

open Text

variable {c : Char} {cs rest : List Char} {p : Char → Bool}

/-! ### Texts that are no numerals -/

namespace Text

theorem mem_dropWhile (hc : c ∈ cs) (hp : p c = false) : c ∈ cs.dropWhile p := by
  have hsplit := List.takeWhile_append_dropWhile (p := p) (l := cs)
  rw [← hsplit, List.mem_append] at hc
  rcases hc with hc | hc
  · rw [List.mem_takeWhile_imp hc] at hp
    cases hp
  · exact hc

theorem mem_dropTrailing (hc : c ∈ cs) (hp : p c = false) : c ∈ dropTrailing p cs := by
  induction cs with
  | nil => cases hc
  | cons d cs ih =>
    rw [dropTrailing]
    rcases List.mem_cons.mp hc with rfl | hc
    · split
      · rw [hp]
        exact List.mem_cons_self
      · exact List.mem_cons_self
    · have hkept := ih hc
      split
      · next hnil =>
        rw [hnil] at hkept
        cases hkept
      · exact List.mem_cons_of_mem _ hkept

/-- Only characters of the given kind are trimmed off a text. -/
theorem mem_trimBoth (hc : c ∈ cs) (hp : p c = false) : c ∈ trimBoth p cs :=
  mem_dropTrailing (mem_dropWhile hc hp) hp

end Text

namespace Number

theorem ahead_takeNumeral? {numeral : Numeral} (h : takeNumeral? cs = some (numeral, rest)) :
    Ahead cs rest := by
  have hahead := ((ahead_takeSign cs).trans (ahead_takeDigits _)).trans (ahead_takeFraction _)
  have hexponent := hahead.trans (ahead_takeExponent _)
  simp only [takeNumeral?] at h
  split at h
  · cases h
  · obtain ⟨-, rfl⟩ := Prod.mk.inj (Option.some.inj h)
    exact hexponent

/-- A numeral consists of signs, digits, points and marks of an exponent. -/
theorem readNumeral?_eq_none (hc : c ∈ cs) (hpart : isNumberPart c = false) :
    readNumeral? cs = none := by
  unfold readNumeral?
  split
  · next numeral hnumeral =>
    obtain ⟨word, rfl, hword⟩ := ahead_takeNumeral? hnumeral
    rw [List.append_nil] at hc
    rw [hword c hc] at hpart
    cases hpart
  · rfl

/-- A text with a comma in it is no number. -/
theorem ofText_eq_nan (h : ',' ∈ cs) : ofText cs = nan := by
  have hcomma : ',' ∈ trimValue cs := mem_trimBoth h (by decide)
  have hother : ∀ word : List Char, ',' ∉ word → trimValue cs ≠ word := by
    rintro word hword rfl
    exact hword hcomma
  have hempty : (trimValue cs).isEmpty = false := List.isEmpty_eq_false_iff.mpr (hother [] nofun)
  rw [ofText, hempty, if_neg Bool.false_ne_true,
    if_neg (not_or.mpr ⟨hother _ (by decide), hother _ (by decide)⟩), if_neg (hother _ (by decide)),
    readNumeral?_eq_none hcomma (by decide)]
  rfl

end Number

/-! ### The text of an array -/

namespace Value

variable {id : Identity} {item other : Value} {items : List Value}

theorem chars_array_singleton : (array id [item]).chars = if item.isNullish then [] else item.chars := by
  rw [chars_array, itemChars_cons, itemChars_nil, List.intercalate_singleton]

/-- Between two items stands a comma. -/
theorem comma_mem_chars : ',' ∈ (array id (item :: other :: items)).chars := by
  rw [chars_array, itemChars_cons, itemChars_cons, List.intercalate_cons_cons]
  simp

/-- The number of an array is that of its text, unless its one item has no value. -/
theorem toNumber_array (h : ∀ v, items = [v] → v.isNullish = false) :
    (array id items).toNumber = Number.ofText (array id items).chars := by
  -- the number looks at how many items there are, and the text puts a comma between them
  match items, h with
  | [], _ => rfl
  | [item], h => rw [toNumber, chars_array_singleton, h item rfl, if_neg Bool.false_ne_true]
  | item :: other :: items, _ => simp only [toNumber, Number.ofText_eq_nan comma_mem_chars]

/-- The text of a value as a value of its own. -/
def asText (v : Value) : Value := .text v.display

theorem chars_asText (v : Value) : v.asText.chars = v.chars := String.toList_ofList

theorem toNumber_asText (v : Value) : v.asText.toNumber = Number.ofText v.chars := by
  show Number.ofText v.display.toList = _
  rw [display, String.toList_ofList]

/-! ### What looks at numbers -/

/-- Arithmetic, comparisons with numbers and with truth values, and amounts of money do not tell `a` and
`b` apart. -/
structure CoercesLike (a b : Value) : Prop where
  number : a.toNumber = b.toNumber
  unary : ∀ operator ∈ [UnaryOperator.negate, .plus], operator.apply a = operator.apply b
  arithmetic : ∀ operator ∈ [BinaryOperator.multiply, .divide, .remainder, .add, .subtract],
    ∀ c, operator.apply a c = operator.apply b c ∧ operator.apply c a = operator.apply c b
  order : ∀ operator ∈ [BinaryOperator.less, .lessOrEqual, .greater, .greaterOrEqual],
    ∀ x, operator.apply a (.number x) = operator.apply b (.number x) ∧
      operator.apply (.number x) a = operator.apply (.number x) b
  equality : ∀ operator ∈ [BinaryOperator.equal, .notEqual],
    ∀ c, (∃ x, c = .number x) ∨ (∃ t, c = .bool t) →
      operator.apply a c = operator.apply b c ∧ operator.apply c a = operator.apply c b
  money : moneyText a = moneyText b

/-- An array is added as its text is. -/
theorem add_array (id : Identity) (items : List Value) (c : Value) :
    (array id items).add c = (array id items).asText.add c ∧
      c.add (array id items) = c.add (array id items).asText := by
  have hchars := chars_asText (array id items)
  have htext : (array id items).asText.concatenates = true := rfl
  have harray : (array id items).concatenates = true := rfl
  rw [add, add, add, add, hchars, htext, harray]
  simp

theorem order?_array (h : (array id items).toNumber = (array id items).asText.toNumber) (x : Float) :
    (array id items).order? (.number x) = (array id items).asText.order? (.number x) ∧
      (number x).order? (array id items) = (number x).order? (array id items).asText := by
  constructor
  · show orderNumbers? (array id items).toNumber x = orderNumbers? (array id items).asText.toNumber x
    rw [h]
  · show orderNumbers? x (array id items).toNumber = orderNumbers? x (array id items).asText.toNumber
    rw [h]

/-- An array beside a number is compared by its text, and beside a truth value by its number. -/
theorem looseEquals_array (h : (array id items).toNumber = (array id items).asText.toNumber)
    {c : Value} (hc : (∃ x, c = .number x) ∨ ∃ t, c = .bool t) :
    (array id items).looseEquals c = (array id items).asText.looseEquals c ∧
      c.looseEquals (array id items) = c.looseEquals (array id items).asText := by
  rcases hc with ⟨x, rfl⟩ | ⟨t, rfl⟩
  · have htext := toNumber_asText (array id items)
    constructor
    · show (Number.ofText (array id items).chars == x) = ((array id items).asText.toNumber == x)
      rw [htext]
    · show (x == Number.ofText (array id items).chars) = (x == (array id items).asText.toNumber)
      rw [htext]
  · constructor
    · show ((array id items).toNumber == (bool t).toNumber) =
        ((array id items).asText.toNumber == (bool t).toNumber)
      rw [h]
    · show ((bool t).toNumber == (array id items).toNumber) =
        ((bool t).toNumber == (array id items).asText.toNumber)
      rw [h]

theorem coercesLike_asText (h : (array id items).toNumber = (array id items).asText.toNumber) :
    CoercesLike (array id items) (array id items).asText where
  number := h
  unary operator hoperator := by
    simp only [List.mem_cons, List.not_mem_nil, or_false] at hoperator
    rcases hoperator with rfl | rfl <;> simp only [UnaryOperator.apply, h]
  arithmetic operator hoperator c := by
    obtain ⟨hleft, hright⟩ := add_array id items c
    simp only [List.mem_cons, List.not_mem_nil, or_false] at hoperator
    rcases hoperator with rfl | rfl | rfl | rfl | rfl <;>
      simp only [BinaryOperator.apply, h, hleft, hright, and_self]
  order operator hoperator x := by
    obtain ⟨hleft, hright⟩ := order?_array h x
    simp only [List.mem_cons, List.not_mem_nil, or_false] at hoperator
    rcases hoperator with rfl | rfl | rfl | rfl <;>
      simp only [BinaryOperator.apply, hleft, hright, and_self]
  equality operator hoperator c hc := by
    obtain ⟨hleft, hright⟩ := looseEquals_array h hc
    simp only [List.mem_cons, List.not_mem_nil, or_false] at hoperator
    rcases hoperator with rfl | rfl <;> simp only [BinaryOperator.apply, hleft, hright, and_self]
  money := by
    rw [moneyText, h]
    rfl

/-- An item without a value is no number by its own text. -/
theorem ofText_of_isNullish (h : item.isNullish = true) : Number.ofText item.chars = Number.nan := by
  cases item with
  | undefined => rfl
  | null => rfl
  | _ => cases h

theorem nan_ne_zero : Number.nan ≠ 0.0 := fun h => by
  have hparts := congrArg Number.parts h
  revert hparts
  decide

theorem toNumber_nullish (h : item.isNullish = true) :
    (array id [item]).toNumber = Number.nan ∧ (array id [item]).asText.toNumber = 0.0 := by
  refine ⟨ofText_of_isNullish h, ?_⟩
  rw [toNumber_asText, chars_array_singleton, if_pos h]
  rfl

/-- **An array stands for the number of its own text, in all that looks at numbers, exactly if it is not
one item without a value; such an array is no number, and its text is zero.** -/
theorem array_coerces_iff (id : Identity) (items : List Value) :
    (CoercesLike (array id items) (array id items).asText ↔ ∀ v, items = [v] → v.isNullish = false) ∧
    ∀ v, items = [v] → v.isNullish = true →
      (array id items).toNumber = Number.nan ∧ (array id items).asText.toNumber = 0.0 := by
  have hnullish : ∀ v, items = [v] → v.isNullish = true →
      (array id items).toNumber = Number.nan ∧ (array id items).asText.toNumber = 0.0 := by
    rintro v rfl hv
    exact toNumber_nullish hv
  refine ⟨⟨fun h v hitems => ?_, fun h => ?_⟩, hnullish⟩
  · by_contra hv
    obtain ⟨hnumber, htext⟩ := hnullish v hitems (by simpa using hv)
    have heq := h.number
    rw [hnumber, htext] at heq
    exact nan_ne_zero heq
  · refine coercesLike_asText ?_
    rw [toNumber_array h, toNumber_asText]

/-- The array of `null` is no number, though its text is empty and so stands for zero. -/
theorem toNumber_null_item :
    let a := array (.given 0) [.null]
    a.asText = .text "" ∧ Number.isNan a.toNumber = true ∧ Number.isNan a.asText.toNumber = false ∧
      a.toNumber ≠ a.asText.toNumber := by
  intro a
  have hboth : a.toNumber = Number.nan ∧ a.asText.toNumber = 0.0 := toNumber_nullish rfl
  obtain ⟨hnumber, htext⟩ := hboth
  rw [hnumber, htext]
  exact ⟨rfl, by decide, by decide, nan_ne_zero⟩

end Value

end Stencil
