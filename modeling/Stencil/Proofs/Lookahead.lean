/-
Stencil/Proofs/Lookahead.lean

How far a token looks.  The token at the head of a text is as long as it can be, so it
depends on what stands behind it, but not on much of it: on the first character, and
behind a number on whether a fraction or an exponent follows.  `Softens rest rest'` says
that `rest'` begins as `rest` does and then ends, goes on with a character with which no
token goes on, or goes on with the same character that no number can go on with.
Whatever ends in front of `rest` also ends in front of `rest'`; the main result,
`Token.read_softened`, says so of tokens, and the lemmas before it of each of their kinds.

Where no token can be read the same question has three answers (`Token.stuck_cases`): a
quote is open, a lone `&` or `|` stands there, or a character with which no token begins.
-/
import Stencil.Proofs.Lexing
import Stencil.Proofs.TokenPlaces

namespace Stencil

open Text

/-! ### What stands behind a token -/

/-- A character in front of which every number ends, whatever stands behind it. -/
def isParting (c : Char) : Bool := !(['.', 'e', 'E', '+', '-'].contains c)

/-- A character with which no token goes on: it is part of no name or number, and it makes no symbol
longer. -/
def isEnding (c : Char) : Bool := !(isNamePart c || ['.', '+', '-', '='].contains c)

theorem isEnding_iff {c : Char} :
    isEnding c = true ↔ isNamePart c = false ∧ c ∉ ['.', '+', '-', '='] := by
  rw [isEnding, Bool.not_eq_true', Bool.or_eq_false_iff, ← Bool.not_eq_true (List.contains _ _),
    List.contains_iff_mem]

theorem isNamePart_of_isBlank {c : Char} (h : isBlank c = true) : isNamePart c = false := by
  have hnumeric : isNumeric c = false := covers_eq_false (by decide +kernel) h
  have hstart := isNameStart_of_isBlank h
  simp only [isNameStart, Bool.or_eq_false_iff] at hstart
  simp [isNamePart, hstart, hnumeric]

theorem isNamePart_of_isDecimalDigit {c : Char} (h : isDecimalDigit c = true) :
    isNamePart c = true := by
  have hnumeric : isNumeric c = true := by
    obtain ⟨hlo, hhi⟩ := isDecimalDigit_iff.mp h
    rw [isNumeric, numericRanges, CodeRanges.covers, if_neg (Nat.not_lt.mpr hlo),
      decide_eq_true hhi, Bool.true_or]
  simp [isNamePart, hnumeric]

/-- White space ends every token. -/
theorem isEnding_of_isBlank {c : Char} (h : isBlank c = true) : isEnding c = true := by
  refine isEnding_iff.mpr ⟨isNamePart_of_isBlank h, fun hmem => ?_⟩
  simp only [List.mem_cons, List.not_mem_nil, or_false] at hmem
  rcases hmem with rfl | rfl | rfl | rfl <;> cases h

theorem isDecimalDigit_of_isEnding {c : Char} (h : isEnding c = true) : isDecimalDigit c = false := by
  by_contra hdigit
  have hpart := isNamePart_of_isDecimalDigit (by simpa using hdigit)
  rw [(isEnding_iff.mp h).1] at hpart
  cases hpart

/-- `rest'` begins as `rest` does, up to its end, to a character with which no token goes on or to a
character that they share. -/
inductive Softens : List Char → List Char → Prop
  | nil (rest : List Char) : Softens rest []
  | ending {c : Char} (hc : isEnding c = true) (rest cs : List Char) : Softens rest (c :: cs)
  | parting {c : Char} (hc : isParting c = true) (cs cs' : List Char) : Softens (c :: cs) (c :: cs')
  | cons (c : Char) {rest rest' : List Char} : Softens rest rest' → Softens (c :: rest) (c :: rest')

namespace Softens

variable {rest rest' : List Char}

theorem prepend (h : Softens rest rest') (cs : List Char) : Softens (cs ++ rest) (cs ++ rest') := by
  induction cs with
  | nil => exact h
  | cons c cs ih => exact .cons c ih

theorem blank (rest cs : List Char) : Softens rest (' ' :: cs) :=
  .ending (isEnding_of_isBlank rfl) rest cs

/-- Any first character with which a token could go on is shared. -/
theorem head (h : Softens rest rest') {c : Char} {cs : List Char} (hrest : rest' = c :: cs) :
    isEnding c = true ∨ ∃ others, rest = c :: others := by
  cases h with
  | nil => cases hrest
  | ending hc =>
    cases hrest
    exact .inl hc
  | parting =>
    cases hrest
    exact .inr ⟨_, rfl⟩
  | cons =>
    cases hrest
    exact .inr ⟨_, rfl⟩

/-- What no first character of `rest` belongs to, none of `rest'` does. -/
theorem ends {p : Char → Bool} (h : Softens rest rest')
    (hending : ∀ c, isEnding c = true → p c = false)
    (hends : ∀ c ∈ rest.head?, p c = false) : ∀ c ∈ rest'.head?, p c = false := by
  intro c hc
  cases rest' with
  | nil => cases hc
  | cons d cs =>
    cases hc
    rcases h.head rfl with hc | ⟨others, rfl⟩
    · exact hending c hc
    · exact hends c rfl

end Softens

/-- A run of characters of a class ends where the next one is not in the class. -/
theorem span_append {p : Char → Bool} {front rest : List Char} (hfront : ∀ c ∈ front, p c = true)
    (hrest : ∀ c ∈ rest.head?, p c = false) :
    (front ++ rest).takeWhile p = front ∧ (front ++ rest).dropWhile p = rest := by
  have hend : rest.takeWhile p = [] ∧ rest.dropWhile p = rest := by
    cases rest with
    | nil => exact ⟨rfl, rfl⟩
    | cons c cs => simp [hrest c rfl]
  rw [List.takeWhile_append_of_pos hfront, List.dropWhile_append_of_pos hfront, hend.1, hend.2,
    List.append_nil]
  exact ⟨rfl, rfl⟩

/-! ### Numbers -/

namespace Number

variable {cs ds rest rest' : List Char}

theorem takeDigits_append (hds : ∀ c ∈ ds, isDecimalDigit c = true)
    (hrest : ∀ c ∈ rest.head?, isDecimalDigit c = false) : takeDigits (ds ++ rest) = (ds, rest) := by
  obtain ⟨htake, hdrop⟩ := span_append hds hrest
  rw [takeDigits, htake, hdrop]

theorem takeDigits_spec (h : takeDigits cs = (ds, rest)) :
    cs = ds ++ rest ∧ (∀ c ∈ ds, isDecimalDigit c = true) ∧
      ∀ c ∈ rest.head?, isDecimalDigit c = false := by
  cases h
  refine ⟨List.takeWhile_append_dropWhile.symm, fun c hc => List.mem_takeWhile_imp hc, ?_⟩
  intro c hc
  have hend := List.head?_dropWhile_not isDecimalDigit cs
  rwa [Option.mem_def.mp hc] at hend

/-- Digits do not look behind the first character that is none. -/
theorem takeDigits_softened (h : takeDigits (ds ++ rest) = (ds, rest)) (hrest : Softens rest rest') :
    takeDigits (ds ++ rest') = (ds, rest') := by
  obtain ⟨-, hds, hend⟩ := takeDigits_spec h
  exact takeDigits_append hds (hrest.ends (fun _ => isDecimalDigit_of_isEnding) hend)

/-- Where no digit comes first, none does in a softer text. -/
theorem takeDigits_eq_nil_softened (h : (takeDigits rest).1 = []) (hrest : Softens rest rest') :
    takeDigits rest' = ([], rest') := by
  have hsplit : rest = (takeDigits rest).1 ++ (takeDigits rest).2 :=
    List.takeWhile_append_dropWhile.symm
  rw [h, List.nil_append] at hsplit
  exact takeDigits_softened (Prod.ext h hsplit.symm : takeDigits ([] ++ rest) = ([], rest)) hrest

theorem takeFraction_eq {c : Char} (hc : c ≠ '.') (cs : List Char) :
    takeFraction (c :: cs) = ([], c :: cs) := by
  rw [takeFraction.eq_2]
  rintro _ ⟨⟩
  exact hc rfl

/-- Where no fraction comes first, none does in a softer text. -/
theorem takeFraction_softened (h : (takeFraction rest).1 = []) (hrest : Softens rest rest') :
    (takeFraction rest').1 = [] := by
  cases hrest with
  | nil => rfl
  | ending hc =>
    rw [takeFraction_eq (ne_of_belongs hc (by decide +kernel))]
  | @parting c hc =>
    have hne : c ≠ '.' := by
      rintro rfl
      cases hc
    rw [takeFraction_eq hne]
  | @cons c rest rest' hrest =>
    by_cases hpoint : c = '.'
    · subst hpoint
      exact congrArg Prod.fst (takeDigits_eq_nil_softened h hrest)
    · rw [takeFraction_eq hpoint]

theorem takeSign_eq {c : Char} (hminus : c ≠ '-') (hplus : c ≠ '+') (cs : List Char) :
    takeSign (c :: cs) = (false, c :: cs) := by
  rw [takeSign.eq_3]
  · rintro _ ⟨⟩
    exact hminus rfl
  · rintro _ ⟨⟩
    exact hplus rfl

/-- A sign is taken off both texts or off none. -/
theorem takeSign_softened (hrest : Softens rest rest') :
    Softens (takeSign rest).2 (takeSign rest').2 := by
  cases hrest with
  | nil => exact .nil _
  | ending hc =>
    rw [takeSign_eq (ne_of_belongs hc (by decide +kernel)) (ne_of_belongs hc (by decide +kernel))]
    exact .ending hc _ _
  | @parting c hc cs cs' =>
    have hne : c ≠ '-' ∧ c ≠ '+' := by
      constructor <;> (rintro rfl; cases hc)
    rw [takeSign_eq hne.1 hne.2, takeSign_eq hne.1 hne.2]
    exact .parting hc cs cs'
  | @cons c rest rest' hrest =>
    by_cases hminus : c = '-'
    · subst hminus
      exact hrest
    by_cases hplus : c = '+'
    · subst hplus
      exact hrest
    rw [takeSign_eq hminus hplus, takeSign_eq hminus hplus]
    exact .cons c hrest

/-- A sign is taken off in front of digits, whatever stands behind them. -/
theorem takeSign_append (hds : ds ≠ []) (h : (takeSign (cs ++ rest)).2 = ds ++ rest)
    (rest' : List Char) : (takeSign (cs ++ rest')).2 = ds ++ rest' := by
  cases cs with
  | nil =>
    have hlength := (ahead_takeSign rest).length_le
    have hpos := List.length_pos_of_ne_nil hds
    rw [show (takeSign rest).2 = ds ++ rest from h, List.length_append] at hlength
    omega
  | cons c cs =>
    by_cases hminus : c = '-'
    · subst hminus
      rw [List.append_cancel_right (show cs ++ rest = ds ++ rest from h)]
      rfl
    by_cases hplus : c = '+'
    · subst hplus
      rw [List.append_cancel_right (show cs ++ rest = ds ++ rest from h)]
      rfl
    rw [List.cons_append, takeSign_eq hminus hplus] at h ⊢
    rw [← List.append_cancel_right (show c :: cs ++ rest = ds ++ rest from h)]
    rfl

theorem takeExponent_of_mark {mark : Char} (hmark : mark = 'e' ∨ mark = 'E') (cs : List Char) :
    (takeExponent (mark :: cs)).2 =
      if (takeDigits (takeSign cs).2).1 = [] then mark :: cs else (takeDigits (takeSign cs).2).2 := by
  rw [takeExponent, if_pos hmark]
  rcases hdigits : takeDigits (takeSign cs).2 with ⟨_ | ⟨d, ds⟩, rest⟩ <;> simp [hdigits]

theorem takeExponent_of_other {c : Char} (hmark : ¬(c = 'e' ∨ c = 'E')) (cs : List Char) :
    takeExponent (c :: cs) = (0, c :: cs) := by
  rw [takeExponent, if_neg hmark]

/-- Where no exponent comes first, none does in a softer text. -/
theorem takeExponent_softened (h : (takeExponent rest).2 = rest) (hrest : Softens rest rest') :
    (takeExponent rest').2 = rest' := by
  cases hrest with
  | nil => rfl
  | @ending c hc =>
    have hmark : ¬(c = 'e' ∨ c = 'E') := by
      rintro (rfl | rfl)
      · exact ne_of_belongs hc (by decide +kernel) rfl
      · exact ne_of_belongs hc (by decide +kernel) rfl
    rw [takeExponent_of_other hmark]
  | @parting c hc =>
    have hmark : ¬(c = 'e' ∨ c = 'E') := by
      rintro (rfl | rfl) <;> cases hc
    rw [takeExponent_of_other hmark]
  | @cons c rest rest' hrest =>
    by_cases hmark : c = 'e' ∨ c = 'E'
    · rw [takeExponent_of_mark hmark] at h ⊢
      have hdigits : (takeDigits (takeSign rest).2).1 = [] := by
        by_contra hdigits
        rw [if_neg hdigits] at h
        -- an exponent would take the mark at least
        have hlength := ((ahead_takeSign rest).trans (ahead_takeDigits _)).length_le
        rw [h, List.length_cons] at hlength
        omega
      rw [takeDigits_eq_nil_softened hdigits (takeSign_softened hrest), if_pos rfl]
    · rw [takeExponent_of_other hmark]

/-- The exponent that is taken ends in front of a softer text as well. -/
theorem takeExponent_append_softened (h : (takeExponent (cs ++ rest)).2 = rest)
    (hrest : Softens rest rest') : (takeExponent (cs ++ rest')).2 = rest' := by
  cases cs with
  | nil => exact takeExponent_softened h hrest
  | cons mark cs =>
    have hlonger : mark :: (cs ++ rest) ≠ rest := fun heq => by
      have hlength := congrArg List.length heq
      simp at hlength
      omega
    rw [List.cons_append] at h ⊢
    have hmark : mark = 'e' ∨ mark = 'E' := by
      by_contra hmark
      rw [takeExponent_of_other hmark] at h
      exact hlonger h
    rw [takeExponent_of_mark hmark] at h ⊢
    split at h
    · exact absurd h hlonger
    · next hne =>
      obtain ⟨ds, hds⟩ : ∃ ds, takeDigits (takeSign (cs ++ rest)).2 = (ds, rest) := ⟨_, Prod.ext rfl h⟩
      rw [hds] at hne
      obtain ⟨hsplit, hdigits, -⟩ := takeDigits_spec hds
      rw [hsplit] at hds
      rw [takeSign_append hne hsplit, takeDigits_softened hds hrest, if_neg hne]

end Number

namespace Token

variable {word rest rest' : List Char}

theorem takeWhole_spec (cs : List Char) : cs = (takeWhole cs).1 ++ (takeWhole cs).2 := by
  fun_cases takeWhole cs
  · rfl
  · exact List.takeWhile_append_dropWhile.symm

/-- The whole part of a number ends in front of a softer text as well. -/
theorem takeWhole_softened (h : takeWhole (word ++ rest) = (word, rest)) (hrest : Softens rest rest') :
    takeWhole (word ++ rest') = (word, rest') := by
  cases word with
  | nil =>
    have hdigits : Number.takeDigits rest' = ([], rest') := by
      refine Number.takeDigits_eq_nil_softened ?_ hrest
      rw [takeWhole.eq_def] at h
      split at h
      · cases h
      · exact congrArg Prod.fst h
    rw [List.nil_append, takeWhole.eq_2, hdigits]
    -- a zero would have been taken
    rintro cs rfl
    cases hdigits
  | cons c cs =>
    by_cases hzero : c = '0'
    · subst hzero
      obtain ⟨hcs, -⟩ := List.cons.inj (congrArg Prod.fst h)
      rw [← (List.cons.inj (congrArg Prod.fst h)).2]
      rfl
    · have hdigits : ∀ others, takeWhole (c :: cs ++ others) = Number.takeDigits (c :: cs ++ others) := by
        intro others
        rw [takeWhole.eq_2]
        rintro _ ⟨⟩
        exact hzero rfl
      rw [hdigits] at h ⊢
      exact Number.takeDigits_softened h hrest

theorem takeFraction_spec {cs : List Char} (h : (Number.takeFraction cs).1 ≠ []) :
    cs = '.' :: ((Number.takeFraction cs).1 ++ (Number.takeFraction cs).2) := by
  revert h
  fun_cases Number.takeFraction cs
  · intro _
    exact congrArg _ List.takeWhile_append_dropWhile.symm
  · intro h
    exact absurd rfl h

/-- A number is a whole part with no fraction behind it, or it has a fraction; an exponent may follow. -/
theorem afterNumber?_eq_some_iff {cs digits behind : List Char}
    (hwhole : takeWhole cs = (digits, behind)) :
    afterNumber? cs = some rest ↔
      (digits ≠ [] ∧ (Number.takeFraction behind).1 = [] ∧ (Number.takeExponent behind).2 = rest) ∨
      ((Number.takeFraction behind).1 ≠ [] ∧
        (Number.takeExponent (Number.takeFraction behind).2).2 = rest) := by
  rw [afterNumber?, hwhole]
  by_cases hfraction : (Number.takeFraction behind).1 = [] <;> by_cases hdigits : digits = [] <;>
    simp [hfraction, hdigits]

/-- A number ends in front of a softer text as well. -/
theorem afterNumber?_softened (h : afterNumber? (word ++ rest) = some rest)
    (hrest : Softens rest rest') : afterNumber? (word ++ rest') = some rest' := by
  have hsplit := takeWhole_spec (word ++ rest)
  obtain ⟨digits, behind, hwhole⟩ : ∃ digits behind, takeWhole (word ++ rest) = (digits, behind) :=
    ⟨_, _, rfl⟩
  rw [hwhole] at hsplit
  -- the word is digits, a fraction if there is one, and a power; each of the three is read up to the
  -- same character in front of the softer text
  rcases (afterNumber?_eq_some_iff hwhole).mp h with ⟨hdigits, hfraction, hexponent⟩ | ⟨hfraction, hexponent⟩
  · obtain ⟨power, hbehind, -⟩ := Number.ahead_takeExponent behind
    rw [hexponent] at hbehind
    subst hbehind
    obtain rfl : word = digits ++ power := by
      rw [← List.append_assoc] at hsplit
      exact List.append_cancel_right hsplit
    have hsoft := hrest.prepend power
    rw [List.append_assoc] at hwhole ⊢
    exact (afterNumber?_eq_some_iff (takeWhole_softened hwhole hsoft)).mpr (.inl ⟨hdigits,
      Number.takeFraction_softened hfraction hsoft,
      Number.takeExponent_append_softened hexponent hrest⟩)
  · have hbehind := takeFraction_spec hfraction
    obtain ⟨fraction, left, htake⟩ : ∃ fraction left, Number.takeFraction behind = (fraction, left) :=
      ⟨_, _, rfl⟩
    rw [htake] at hfraction hexponent hbehind
    obtain ⟨power, hleft, -⟩ := Number.ahead_takeExponent left
    simp only at hfraction hexponent hbehind hleft
    rw [hexponent] at hleft
    subst hleft hbehind
    have hsplit : word ++ rest = digits ++ '.' :: (fraction ++ power) ++ rest := by simpa using hsplit
    obtain rfl := List.append_cancel_right hsplit
    have hsoft := hrest.prepend power
    have htake' : Number.takeFraction ('.' :: fraction ++ (power ++ rest')) =
        (fraction, power ++ rest') :=
      Number.takeDigits_softened htake hsoft
    have hwhole : takeWhole (digits ++ ('.' :: fraction ++ (power ++ rest))) =
        (digits, '.' :: fraction ++ (power ++ rest)) := by simpa using hwhole
    have hwhole' := takeWhole_softened hwhole (hsoft.prepend ('.' :: fraction))
    -- the point belongs to the word, so the fraction is read again behind it
    have hword : digits ++ '.' :: (fraction ++ power) ++ rest' =
        digits ++ ('.' :: fraction ++ (power ++ rest')) := by simp
    rw [hword, afterNumber?_eq_some_iff hwhole', htake']
    exact .inr ⟨hfraction, Number.takeExponent_append_softened hexponent hrest⟩

theorem afterNumber?_eq_none_iff {cs digits behind : List Char}
    (hwhole : takeWhole cs = (digits, behind)) :
    afterNumber? cs = none ↔ digits = [] ∧ (Number.takeFraction behind).1 = [] := by
  rw [afterNumber?, hwhole]
  by_cases hfraction : (Number.takeFraction behind).1 = [] <;> by_cases hdigits : digits = [] <;>
    simp [hfraction, hdigits]

/-- Where no number comes first, none does in a softer text. -/
theorem afterNumber?_eq_none_softened (h : afterNumber? rest = none) (hrest : Softens rest rest') :
    afterNumber? rest' = none := by
  obtain ⟨digits, behind, hwhole⟩ : ∃ digits behind, takeWhole rest = (digits, behind) :=
    ⟨_, _, rfl⟩
  obtain ⟨rfl, hfraction⟩ := (afterNumber?_eq_none_iff hwhole).mp h
  have hsplit := takeWhole_spec rest
  rw [hwhole, List.nil_append] at hsplit
  rw [← show rest = behind from hsplit] at hwhole hfraction
  have hwhole : takeWhole ([] ++ rest) = ([], rest) := hwhole
  exact (afterNumber?_eq_none_iff (takeWhole_softened hwhole hrest)).mpr
    ⟨rfl, Number.takeFraction_softened hfraction hrest⟩

/-! ### Tokens -/

variable {c : Char} {cs : List Char} {t : Token}

/-- A backslash takes the next character along, so one that stands by itself has nothing behind it. -/
theorem ne_backslash_of_takeQuoted? {quote : Char} {raw : List Char}
    (hescape : ∀ d ds, c = '\\' → cs = d :: ds → False) (h : takeQuoted? quote cs = some raw) :
    c ≠ '\\' := by
  intro hc
  cases cs with
  | nil => cases h
  | cons d cs => exact hescape d cs hc rfl

/-- A quoted text ends with its quote, whatever stands behind it. -/
theorem takeQuoted?_append {quote : Char} (hquote : quote ≠ '\\') {raw : List Char}
    (h : takeQuoted? quote cs = some raw) (rest : List Char) :
    takeQuoted? quote (raw ++ quote :: rest) = some raw := by
  fun_induction takeQuoted? quote cs generalizing raw with
  | case1 => cases h
  | case2 c cs ih =>
    obtain ⟨inner, hinner, rfl⟩ := Option.map_eq_some_iff.mp h
    show (takeQuoted? quote (inner ++ quote :: rest)).map _ = _
    rw [ih hinner]
    rfl
  | case3 =>
    obtain rfl := Option.some.inj h
    rw [List.nil_append, takeQuoted?.eq_3 _ _ _ fun _ _ hback => (hquote hback).elim, if_pos rfl]
  | case4 c cs hback hc ih =>
    obtain ⟨inner, hinner, rfl⟩ := Option.map_eq_some_iff.mp h
    have hplain := ne_backslash_of_takeQuoted? hback hinner
    rw [List.cons_append, takeQuoted?_plain hplain hc, ih hinner]
    rfl

theorem takeQuoted?_softened {quote : Char} (hquote : quote ≠ '\\') {raw : List Char}
    (h : takeQuoted? quote (word ++ rest) = some raw) (hlength : raw.length + 2 = word.length + 1)
    (rest' : List Char) : takeQuoted? quote (word ++ rest') = some raw := by
  obtain ⟨left, hleft⟩ := takeQuoted?_spec h
  have hsplit : word ++ rest = raw ++ [quote] ++ left := by rw [hleft, List.append_assoc]; rfl
  obtain ⟨rfl, -⟩ := List.append_inj hsplit (by simpa using hlength.symm)
  rw [List.append_assoc]
  exact takeQuoted?_append hquote h rest'

theorem readNumber?_softened (h : readNumber? (word ++ rest) = some (t, word.length))
    (hrest : Softens rest rest') : readNumber? (word ++ rest') = some (t, word.length) := by
  obtain ⟨left, hafter, hread⟩ := Option.map_eq_some_iff.mp h
  obtain ⟨⟨front, hsplit, -⟩, -⟩ := afterNumber?_spec hafter
  simp only [Prod.mk.injEq] at hread
  obtain ⟨ht, hlength⟩ := hread
  obtain ⟨rfl, rfl⟩ : word = front ∧ rest = left := by
    refine List.append_inj hsplit ?_
    rw [hsplit, List.length_append, Nat.add_sub_cancel] at hlength
    exact hlength.symm
  rw [readNumber?, afterNumber?_softened hafter hrest, Option.map_some]
  rw [List.length_append, Nat.add_sub_cancel, List.take_left] at ht
  simp only [List.length_append, Nat.add_sub_cancel, List.take_left, ht]

theorem readNumber?_eq_none_softened (h : readNumber? rest = none) (hrest : Softens rest rest') :
    readNumber? rest' = none := by
  rw [readNumber?, Option.map_eq_none_iff] at h ⊢
  exact afterNumber?_eq_none_softened h hrest

/-- A name takes along every character that may be part of it. -/
theorem splitName?_ends {letters : List Char} (h : splitName? cs = some (letters, rest)) :
    ∀ d ∈ rest.head?, isNamePart d = false := by
  cases cs with
  | nil => cases h
  | cons c cs =>
    rw [splitName?] at h
    split at h
    · intro d hd
      have hend := List.head?_dropWhile_not isNamePart cs
      rw [(Prod.mk.inj (Option.some.inj h)).2] at hend
      rwa [Option.mem_def.mp hd] at hend
    · cases h

/-- The name or reserved word that takes up a word is split off there. -/
theorem splitName?_of_readName? (h : readName? (word ++ rest) = some (t, word.length)) :
    splitName? (word ++ rest) = some (word, rest) := by
  obtain ⟨⟨letters, left⟩, hsplit, hread⟩ := Option.map_eq_some_iff.mp h
  obtain ⟨-, -, hchars⟩ := splitName?_spec hsplit
  have hlength : letters.length = word.length := by
    simp only at hread
    split at hread <;> exact congrArg Prod.snd hread
  obtain ⟨rfl, rfl⟩ := List.append_inj hchars hlength.symm
  exact hsplit

theorem readName?_softened (h : readName? (word ++ rest) = some (t, word.length))
    (hrest : Softens rest rest') : readName? (word ++ rest') = some (t, word.length) := by
  have hsplit := splitName?_of_readName? h
  obtain ⟨hne, hletters, -⟩ := splitName?_spec hsplit
  obtain ⟨c, cs, rfl⟩ := List.exists_cons_of_ne_nil hne
  obtain ⟨htake, hdrop⟩ := span_append (List.forall_mem_cons.mp hletters).2
    (hrest.ends (fun _ hc => (isEnding_iff.mp hc).1) (splitName?_ends hsplit))
  have hsoft : splitName? (c :: cs ++ rest') = some (c :: cs, rest') := by
    rw [List.cons_append, splitName?] at hsplit ⊢
    split at hsplit
    · next hstart => rw [if_pos hstart, htake, hdrop]
    · cases hsplit
  rw [readName?, hsplit] at h
  rw [readName?, hsoft]
  exact h

theorem readName?_eq_none_iff : readName? (c :: cs) = none ↔ isNameStart c = false := by
  rw [readName?, Option.map_eq_none_iff, splitName?]
  split <;> simp_all

/-- The symbols that an equals sign would make longer. -/
def growing : List Symbol := [.assign, .equal, .not, .notEqual, .greater, .less]

theorem readSymbol?_spelling (s : Symbol) (rest : List Char) :
    readSymbol? (s.spelling ++ rest) = some (.symbol s, s.spelling.length) ↔
      (s ∈ growing → rest.head? ≠ some '=') := by
  cases rest with
  | nil => cases s <;> decide
  | cons c cs =>
    by_cases hc : c = '='
    · subst hc
      cases s <;> simp [readSymbol?, growing, Symbol.spelling, Symbol.all]
    · cases s <;> simp [readSymbol?, growing, Symbol.spelling, Symbol.all, hc, Ne.symm hc]

/-- Only an equals sign makes a symbol longer. -/
theorem mem_growing_of_prefix {s longer : Symbol} (h : s.spelling ++ [c] <+: longer.spelling) :
    s ∈ growing ∧ c = '=' := by
  cases longer <;> cases s <;> simp_all [Symbol.spelling, growing]

theorem readSymbol?_softened (h : readSymbol? (word ++ rest) = some (t, word.length))
    (hrest : Softens rest rest') : readSymbol? (word ++ rest') = some (t, word.length) := by
  obtain ⟨s, left, hleft, hlength, rfl⟩ := readSymbol?_spec h
  obtain ⟨rfl, -⟩ := List.append_inj hleft hlength
  rw [readSymbol?_spelling] at h ⊢
  intro hgrows hhead
  cases rest' with
  | nil => cases hhead
  | cons c cs =>
    cases hhead
    rcases hrest.head rfl with hending | ⟨others, rfl⟩
    · exact ne_of_belongs hending (by decide +kernel) rfl
    · exact h hgrows rfl

/-- What is read where no quote stands first. -/
def readPlain? (cs : List Char) : Option (Token × Nat) :=
  readBracket? cs <|> readNumber? cs <|> readName? cs <|> readSymbol? cs

theorem read_quote (hquote : c = '\'' ∨ c = '"') (cs : List Char) :
    read (c :: cs) = match takeQuoted? c cs with
      | some raw => .token (.text (String.ofList raw)) (raw.length + 2)
      | none => .stuck (cs.length + 1) := by
  rw [read]
  exact if_pos hquote

theorem read_plain (hquote : ¬(c = '\'' ∨ c = '"')) (cs : List Char) :
    read (c :: cs) = match readPlain? (c :: cs) with
      | some (t, length) => .token t length
      | none => .stuck (if c = '&' ∨ c = '|' then 1 else 0) := by
  rw [read, if_neg hquote]
  rfl

theorem readPlain?_eq_some_iff {x : Token × Nat} :
    readPlain? cs = some x ↔ readBracket? cs = some x ∨ readBracket? cs = none ∧
      (readNumber? cs = some x ∨ readNumber? cs = none ∧
        (readName? cs = some x ∨ readName? cs = none ∧ readSymbol? cs = some x)) := by
  simp only [readPlain?, Option.orElse_eq_orElse, Option.orElse_eq_or, Option.or_eq_some_iff]

theorem readPlain?_softened (hne : word ≠ []) (h : readPlain? (word ++ rest) = some (t, word.length))
    (hrest : Softens rest rest') : readPlain? (word ++ rest') = some (t, word.length) := by
  have hsoft := hrest.prepend word
  -- brackets and the beginnings of names are told by the first character
  have hbracket : readBracket? (word ++ rest') = readBracket? (word ++ rest) := by
    obtain ⟨c, cs, rfl⟩ := List.exists_cons_of_ne_nil hne
    rfl
  have hname : readName? (word ++ rest) = none → readName? (word ++ rest') = none := by
    obtain ⟨c, cs, rfl⟩ := List.exists_cons_of_ne_nil hne
    exact fun hnone => readName?_eq_none_iff.mpr (readName?_eq_none_iff.mp hnone)
  rw [readPlain?_eq_some_iff, hbracket]
  rcases readPlain?_eq_some_iff.mp h with h | ⟨hfirst, h | ⟨hsecond, h | ⟨hthird, h⟩⟩⟩
  · exact .inl h
  · exact .inr ⟨hfirst, .inl (readNumber?_softened h hrest)⟩
  · exact .inr ⟨hfirst, .inr ⟨readNumber?_eq_none_softened hsecond hsoft,
      .inl (readName?_softened h hrest)⟩⟩
  · exact .inr ⟨hfirst, .inr ⟨readNumber?_eq_none_softened hsecond hsoft,
      .inr ⟨hname hthird, readSymbol?_softened h hrest⟩⟩⟩

/-- A token ends in front of a softer text as well. -/
theorem read_softened (hne : word ≠ []) (h : read (word ++ rest) = .token t word.length)
    (hrest : Softens rest rest') : read (word ++ rest') = .token t word.length := by
  obtain ⟨c, cs, rfl⟩ := List.exists_cons_of_ne_nil hne
  rw [List.cons_append] at h ⊢
  by_cases hquote : c = '\'' ∨ c = '"'
  · rw [read_quote hquote] at h ⊢
    have hplain : c ≠ '\\' := by
      rintro rfl
      simp at hquote
    split at h
    · next raw hraw =>
      simp only [Reading.token.injEq, List.length_cons] at h
      simp only [takeQuoted?_softened hplain hraw h.2, h.1, h.2, List.length_cons]
    · cases h
  · rw [read_plain hquote] at h ⊢
    split at h
    · next t' length hread =>
      cases h
      have hread : readPlain? (c :: cs ++ rest) = some (t, (c :: cs).length) := hread
      have hread' := readPlain?_softened hne hread hrest
      rw [List.cons_append] at hread'
      rw [hread']
    · cases h

/-! ### Where no token can be read -/

theorem readNumber?_ne_none (hdigit : isDecimalDigit c = true) (cs : List Char) :
    readNumber? (c :: cs) ≠ none := by
  have hwhole : (takeWhole (c :: cs)).1 ≠ [] := by
    by_cases hzero : c = '0'
    · subst hzero
      exact List.cons_ne_nil _ _
    · rw [takeWhole.eq_2, Number.takeDigits, List.takeWhile_cons_of_pos hdigit]
      · exact List.cons_ne_nil _ _
      · rintro _ ⟨⟩
        exact hzero rfl
  rw [readNumber?, ne_eq, Option.map_eq_none_iff, afterNumber?_eq_none_iff rfl]
  exact fun h => hwhole h.1

/-- Only `&` and `|` begin a symbol without being one. -/
theorem exists_spelling (s : Symbol) (h : s.spelling.head? = some c) :
    (∃ s' ∈ Symbol.all, s'.spelling = [c]) ∨ c = '&' ∨ c = '|' := by
  cases s <;> cases h <;> decide

theorem readSymbol?_eq_none_iff : readSymbol? cs = none ↔ ∀ s : Symbol, ¬s.spelling <+: cs := by
  rw [readSymbol?, Option.map_eq_none_iff, List.find?_eq_none]
  refine ⟨fun h s hs => h s ?_ (by simpa using hs), fun h s _ hs => h s (by simpa using hs)⟩
  cases s <;> decide

theorem readPlain?_eq_none_iff : readPlain? cs = none ↔
    readBracket? cs = none ∧ readNumber? cs = none ∧ readName? cs = none ∧ readSymbol? cs = none := by
  simp only [readPlain?, Option.orElse_eq_orElse, Option.orElse_eq_or, Option.or_eq_none_iff]

/-- No token begins with the character. -/
def Unreadable (c : Char) : Prop := ∀ cs, read (c :: cs) = .stuck 0

/-- A number could go on with any of the other characters, and a token begins with each of them. -/
theorem Unreadable.isParting (h : Unreadable c) : isParting c = true := by
  by_contra hc
  rw [Stencil.isParting, Bool.not_eq_true', Bool.not_eq_false, List.contains_iff_mem] at hc
  simp only [List.mem_cons, List.not_mem_nil, or_false] at hc
  rcases hc with rfl | rfl | rfl | rfl | rfl <;> nomatch h []

theorem unreadable_of_none (hquote : ¬(c = '\'' ∨ c = '"')) (hlone : ¬(c = '&' ∨ c = '|'))
    (h : readPlain? (c :: cs) = none) : Unreadable c := by
  obtain ⟨hbracket, hnumber, hname, hsymbol⟩ := readPlain?_eq_none_iff.mp h
  rw [readSymbol?_eq_none_iff] at hsymbol
  intro others
  have hdigit : isDecimalDigit c = false := by
    by_contra hdigit
    exact readNumber?_ne_none (by simpa using hdigit) cs hnumber
  have hpoint : c ≠ '.' := by
    rintro rfl
    exact hsymbol .dot ⟨cs, rfl⟩
  have hnone : readPlain? (c :: others) = none := by
    refine readPlain?_eq_none_iff.mpr ⟨hbracket, readNumber?_eq_none hdigit hpoint others,
      readName?_eq_none_iff.mpr (readName?_eq_none_iff.mp hname), readSymbol?_eq_none_iff.mpr ?_⟩
    rintro s ⟨left, hleft⟩
    have hhead : s.spelling.head? = some c := by
      have hhead := congrArg List.head? hleft
      rwa [List.head?_append_of_ne_nil _ (by cases s <;> exact List.cons_ne_nil _ _)] at hhead
    rcases exists_spelling s hhead with ⟨s', -, hs'⟩ | hc
    · exact hsymbol s' ⟨cs, by rw [hs']; rfl⟩
    · exact hlone hc
  rw [read_plain hquote, hnone]
  simp only [if_neg hlone]

/-- A lone `&` or `|` is no token. -/
theorem read_lone (hc : c = '&' ∨ c = '|') (hcs : cs.head? ≠ some c) : read (c :: cs) = .stuck 1 := by
  have hquote : ¬(c = '\'' ∨ c = '"') := by
    rcases hc with rfl | rfl <;> decide
  have hsymbol : readSymbol? (c :: cs) = none := by
    cases cs with
    | nil => rcases hc with rfl | rfl <;> rfl
    | cons d cs =>
      have hne : d ≠ c := fun heq => hcs (congrArg some heq)
      rcases hc with rfl | rfl <;> simp [readSymbol?, Symbol.all, Symbol.spelling, Ne.symm hne]
  have hnone : readPlain? (c :: cs) = none := by
    refine readPlain?_eq_none_iff.mpr ⟨?_, ?_, ?_, hsymbol⟩
    · rcases hc with rfl | rfl <;> rfl
    · rcases hc with rfl | rfl <;> exact readNumber?_eq_none (by decide) (by decide) cs
    · rcases hc with rfl | rfl <;> exact readName?_eq_none_iff.mpr (by decide +kernel)
  rw [read_plain hquote, hnone]
  simp only [if_pos hc]

/-- Where no token can be read, a quote is open, or a lone `&` or `|` stands there, or what stands there
begins no token at all. -/
theorem stuck_cases {reach : Nat} (h : read (c :: cs) = .stuck reach) :
    (reach = cs.length + 1 ∧ (c = '\'' ∨ c = '"') ∧ takeQuoted? c cs = none) ∨
      (reach = 1 ∧ (c = '&' ∨ c = '|') ∧ cs.head? ≠ some c) ∨ (reach = 0 ∧ Unreadable c) := by
  by_cases hquote : c = '\'' ∨ c = '"'
  · rw [read_quote hquote] at h
    split at h
    · cases h
    · next hnone =>
      cases h
      exact .inl ⟨rfl, hquote, hnone⟩
  · refine .inr ?_
    rw [read_plain hquote] at h
    split at h
    · cases h
    · next hnone =>
      cases h
      by_cases hlone : c = '&' ∨ c = '|'
      · refine .inl ⟨if_pos hlone, hlone, fun hhead => ?_⟩
        obtain ⟨others, rfl⟩ := List.head?_eq_some_iff.mp hhead
        have hsymbol := readSymbol?_eq_none_iff.mp (readPlain?_eq_none_iff.mp hnone).2.2.2
        rcases hlone with rfl | rfl
        · exact hsymbol .and ⟨others, rfl⟩
        · exact hsymbol .or ⟨others, rfl⟩
      · exact .inr ⟨if_neg hlone, unreadable_of_none hquote hlone hnone⟩

end Token

end Stencil
