/-
Stencil/Proofs/Lexing.lean

Lexing printed tokens.  `Lexes word t`: in front of a blank or the end, the token `t`
is read from `word`, all of it and nothing more.  Words that lex, with a blank between
them, are read as their tokens (`scanFrom_words`).

The main result, `lexes_spell`: every token that is printed lexes.
-/
import Mathlib.Data.List.TakeWhile
import Stencil.Proofs.Printing
import Stencil.Proofs.WholeNumber

namespace Stencil

open Text

/-! ### Words with blanks between them -/

/-- A word may end here. -/
def AtBlank (rest : List Char) : Prop := ∀ c ∈ rest.head?, c = ' '

theorem atBlank_nil : AtBlank [] := nofun

/-- The word is read as the token wherever it may end behind it. -/
structure Lexes (word : List Char) (t : Token) : Prop where
  begins : ∃ c cs, word = c :: cs ∧ isBlank c = false
  read : ∀ rest, AtBlank rest → Token.read (word ++ rest) = .token t word.length

theorem scanFrom_skip (word rest : List Char) (offset : Nat) :
    Token.scanFrom word.length offset (word ++ rest) =
      Token.scanFrom 0 (offset + bytes word) rest := by
  induction word generalizing offset with
  | nil => rfl
  | cons c word ih =>
    rw [List.cons_append, List.length_cons, Token.scanFrom, ih, bytes, Nat.add_assoc]

theorem scanFrom_blank (offset : Nat) (rest : List Char) :
    Token.scanFrom 0 offset (' ' :: rest) = Token.scanFrom 0 (offset + 1) rest := by
  rw [Token.scanFrom]
  rfl

theorem Lexes.scanFrom {word : List Char} {t : Token} (h : Lexes word t) {rest : List Char}
    (hrest : AtBlank rest) (offset : Nat) {placed : List (Token × Span)}
    (hscan : Token.scanFrom 0 (offset + bytes word) rest = .ok placed) :
    Token.scanFrom 0 offset (word ++ rest) =
      .ok ((t, ⟨offset, offset + bytes word⟩) :: placed) := by
  obtain ⟨c, cs, rfl, hblank⟩ := h.begins
  have hread := h.read rest hrest
  -- the walk passes over what is left of the word
  have hskip : Token.scanFrom cs.length (offset + c.utf8Size) (cs ++ rest) = .ok placed := by
    rw [scanFrom_skip, Nat.add_assoc]
    exact hscan
  rw [List.cons_append] at hread ⊢
  rw [Token.scanFrom]
  have htake : (c :: (cs ++ rest)).take (cs.length + 1) = c :: cs := by
    rw [List.take_succ_cons, List.take_left]
  simp only [hblank, hread, List.length_cons, Nat.add_sub_cancel, hskip, htake]
  rfl

/-- Words with blanks between them are read as their tokens. -/
theorem scanFrom_words {spell : Token → List Char} {tokens : List Token}
    (h : ∀ t ∈ tokens, Lexes (spell t) t) (offset : Nat) :
    ∃ placed, Token.scanFrom 0 offset ([' '].intercalate (tokens.map spell)) = .ok placed ∧
      placed.map Prod.fst = tokens := by
  induction tokens generalizing offset with
  | nil => exact ⟨[], rfl, rfl⟩
  | cons t tokens ih =>
    have ht := h t List.mem_cons_self
    have ih := ih fun t ht => h t (List.mem_cons_of_mem _ ht)
    cases tokens with
    | nil =>
      have hscan := ht.scanFrom atBlank_nil offset rfl
      rw [List.append_nil] at hscan
      exact ⟨_, by rw [List.map_singleton, List.intercalate_singleton]; exact hscan, rfl⟩
    | cons t' tokens =>
      obtain ⟨placed, hplaced, htokens⟩ := ih (offset + bytes (spell t) + 1)
      rw [← scanFrom_blank] at hplaced
      have hscan := ht.scanFrom (by simp [AtBlank]) offset hplaced
      rw [List.map_cons, List.map_cons, List.intercalate_cons_cons, List.append_assoc]
      exact ⟨_, hscan, by rw [List.map_cons, htokens]⟩

/-! ### Symbols, brackets and words -/

theorem AtBlank.cases {rest : List Char} (h : AtBlank rest) :
    rest = [] ∨ ∃ cs, rest = ' ' :: cs := by
  cases rest with
  | nil => exact .inl rfl
  | cons c cs =>
    obtain rfl := h c rfl
    exact .inr ⟨cs, rfl⟩

/-- A run of characters of a class ends in front of a blank. -/
theorem AtBlank.span_append {p : Char → Bool} {front rest : List Char} (h : AtBlank rest)
    (hblank : p ' ' = false) (hfront : ∀ c ∈ front, p c = true) :
    (front ++ rest).takeWhile p = front ∧ (front ++ rest).dropWhile p = rest := by
  have hend : rest.takeWhile p = [] ∧ rest.dropWhile p = rest := by
    rcases h.cases with rfl | ⟨cs, rfl⟩
    · exact ⟨rfl, rfl⟩
    · simp [hblank]
  rw [List.takeWhile_append_of_pos hfront, List.dropWhile_append_of_pos hfront, hend.1, hend.2,
    List.append_nil]
  exact ⟨rfl, rfl⟩

theorem lexes_opening (b : Bracket) : Lexes [b.opener] (.opening b) where
  begins := ⟨_, _, rfl, by cases b <;> rfl⟩
  read rest _ := by cases b <;> rfl

theorem lexes_closing (b : Bracket) : Lexes [b.closer] (.closing b) where
  begins := ⟨_, _, rfl, by cases b <;> rfl⟩
  read rest _ := by cases b <;> rfl

theorem lexes_symbol (s : Symbol) : Lexes s.spelling (.symbol s) where
  begins := by cases s <;> exact ⟨_, _, rfl, rfl⟩
  read rest hrest := by
    rcases hrest.cases with rfl | ⟨cs, rfl⟩ <;> cases s <;> rfl

theorem lexes_word (w : Word) : Lexes w.spelling (.word w) where
  begins := by cases w <;> exact ⟨_, _, rfl, rfl⟩
  read rest hrest := by
    rcases hrest.cases with rfl | ⟨cs, rfl⟩ <;> cases w <;> rfl

/-! ### Quoted texts -/

theorem takeQuoted?_plain {quote c : Char} (hback : c ≠ '\\') (hc : c ≠ quote) (cs : List Char) :
    Token.takeQuoted? quote (c :: cs) = (Token.takeQuoted? quote cs).map (c :: ·) := by
  rw [Token.takeQuoted?.eq_3 _ _ _ fun _ _ h => (hback h).elim, if_neg hc]

theorem takeQuoted?_quoteText {quote : Char} (h : IsQuote quote) (text rest : List Char) :
    Token.takeQuoted? quote (quoteText quote text ++ quote :: rest) =
      some (quoteText quote text) := by
  induction text with
  | nil => rcases h with rfl | rfl <;> simp [quoteText, Token.takeQuoted?]
  | cons c text ih =>
    have hcons : quoteText quote (c :: text) =
        (if c = '\\' ∨ c = quote then ['\\', c] else [c]) ++ quoteText quote text := rfl
    rw [hcons, List.append_assoc]
    split
    · show (Token.takeQuoted? quote (quoteText quote text ++ quote :: rest)).map _ = _
      rw [ih]
      rfl
    · next hc =>
      obtain ⟨hback, hquote⟩ := not_or.mp hc
      rw [List.singleton_append, takeQuoted?_plain hback hquote, ih]
      rfl

theorem lexes_text {quote : Char} (h : IsQuote quote) (text : List Char) :
    Lexes (quote :: (quoteText quote text ++ [quote]))
      (.text (String.ofList (quoteText quote text))) where
  begins := ⟨_, _, rfl, by rcases h with rfl | rfl <;> rfl⟩
  read rest _ := by
    have hquote : quote = '\'' ∨ quote = '"' := h
    rw [List.cons_append, List.append_assoc, List.singleton_append, Token.read, if_pos hquote,
      takeQuoted?_quoteText h]
    simp

/-! ### Classes of characters -/

/-- A set that holds none of the code points of some ranges is disjoint from them. -/
theorem covers_eq_false {ranges others : CodeRanges}
    (hdisjoint : ∀ range ∈ ranges, ∀ n ∈ List.range' range.1 (range.2 + 1 - range.1),
      others.covers n = false) {n : Nat} (h : ranges.covers n = true) :
    others.covers n = false := by
  obtain ⟨range, hmem, hlo, hhi⟩ := CodeRanges.exists_of_covers h
  refine hdisjoint range hmem n (List.mem_range'_1.mpr ⟨hlo, ?_⟩)
  omega

theorem isNameStart_of_isBlank {c : Char} (h : isBlank c = true) : isNameStart c = false := by
  have halphabetic : isAlphabetic c = false := covers_eq_false (by decide +kernel) h
  have hspecial : c ≠ '_' ∧ c ≠ '$' := by
    constructor <;> (rintro rfl; cases h)
  simp [isNameStart, halphabetic, hspecial]

theorem isDecimalDigit_iff {c : Char} : isDecimalDigit c = true ↔ 48 ≤ c.toNat ∧ c.toNat ≤ 57 := by
  simp [isDecimalDigit, Char.le_def, UInt32.le_iff_toNat_le]

theorem covers_of_isDecimalDigit {c : Char} (h : isDecimalDigit c = true) :
    CodeRanges.covers [(48, 57)] c.toNat = true := by
  obtain ⟨hlo, hhi⟩ := isDecimalDigit_iff.mp h
  rw [CodeRanges.covers, if_neg (Nat.not_lt.mpr hlo), decide_eq_true hhi, Bool.true_or]

theorem isNameStart_of_isDecimalDigit {c : Char} (h : isDecimalDigit c = true) :
    isNameStart c = false := by
  have halphabetic : isAlphabetic c = false :=
    covers_eq_false (by decide +kernel) (covers_of_isDecimalDigit h)
  have hspecial : c ≠ '_' ∧ c ≠ '$' := by
    constructor <;> (rintro rfl; cases h)
  simp [isNameStart, halphabetic, hspecial]

/-- A character with a property is none that does not have it. -/
theorem ne_of_belongs {belongs : Char → Bool} {c d : Char} (h : belongs c = true)
    (hd : belongs d = false) : c ≠ d := by
  rintro rfl
  rw [hd] at h
  cases h

theorem readBracket?_eq_none {c : Char} (h : ∀ b : Bracket, c ≠ b.opener ∧ c ≠ b.closer)
    (cs : List Char) : Token.readBracket? (c :: cs) = none := by
  have hopener : Bracket.ofOpener? c = none := by
    rw [Bracket.ofOpener?, List.find?_eq_none]
    intro b _
    simpa using Ne.symm (h b).1
  have hcloser : Bracket.ofCloser? c = none := by
    rw [Bracket.ofCloser?, List.find?_eq_none]
    intro b _
    simpa using Ne.symm (h b).2
  simp only [Token.readBracket?, hopener, hcloser]

/-- A character of a class without quotes and brackets begins neither a text nor a bracket. -/
theorem begins_word {belongs : Char → Bool} {c : Char} (h : belongs c = true)
    (hplain : "'\"()[]\x7b\x7d".toList.any belongs = false) :
    ¬(c = '\'' ∨ c = '"') ∧ ∀ cs, Token.readBracket? (c :: cs) = none := by
  have hne : ∀ d ∈ "'\"()[]\x7b\x7d".toList, c ≠ d := fun d hd =>
    ne_of_belongs h (Bool.eq_false_iff.mpr (List.any_eq_false.mp hplain d hd))
  refine ⟨not_or.mpr ⟨hne _ (by decide), hne _ (by decide)⟩, readBracket?_eq_none fun b => ?_⟩
  cases b <;> exact ⟨hne _ (by decide), hne _ (by decide)⟩

/-! ### Names -/

theorem readNumber?_eq_none {c : Char} (hdigit : isDecimalDigit c = false) (hpoint : c ≠ '.')
    (cs : List Char) : Token.readNumber? (c :: cs) = none := by
  have hwhole : Token.takeWhole (c :: cs) = ([], c :: cs) := by
    rw [Token.takeWhole.eq_2, Number.takeDigits]
    · simp [hdigit]
    · rintro _ ⟨⟩
      cases hdigit
  have hfraction : Number.takeFraction (c :: cs) = ([], c :: cs) := by
    rw [Number.takeFraction.eq_2]
    rintro _ ⟨⟩
    exact hpoint rfl
  simp [Token.readNumber?, Token.afterNumber?, hwhole, hfraction]

/-- A name is a character that a name may start with and others that it may go on with. -/
theorem exists_of_isName {cs : List Char} (h : isName cs = true) :
    ∃ c rest, cs = c :: rest ∧ isNameStart c = true ∧ ∀ d ∈ rest, isNamePart d = true := by
  rw [isName] at h
  split at h
  · next letters hsplit =>
    cases cs with
    | nil => cases hsplit
    | cons c rest =>
      rw [splitName?] at hsplit
      split at hsplit
      · next hstart =>
        simp only [Option.some.injEq, Prod.mk.injEq, List.dropWhile_eq_nil_iff] at hsplit
        exact ⟨c, rest, rfl, hstart, hsplit.2⟩
      · cases hsplit
  · cases h

theorem splitName?_append {c : Char} {letters rest : List Char} (hstart : isNameStart c = true)
    (hletters : ∀ d ∈ letters, isNamePart d = true) (hrest : AtBlank rest) :
    splitName? (c :: (letters ++ rest)) = some (c :: letters, rest) := by
  obtain ⟨htake, hdrop⟩ := hrest.span_append (by decide +kernel) hletters
  rw [splitName?, if_pos hstart, htake, hdrop]

theorem lexes_name {name : String} (h : IsFreeName name) : Lexes name.toList (.name name) := by
  obtain ⟨hname, hfree⟩ := h
  obtain ⟨c, letters, hcs, hstart, hletters⟩ := exists_of_isName hname
  have hblank : isBlank c = false := by
    by_contra hc
    rw [isNameStart_of_isBlank (by simpa using hc)] at hstart
    cases hstart
  have hdigit : isDecimalDigit c = false := by
    by_contra hc
    rw [isNameStart_of_isDecimalDigit (by simpa using hc)] at hstart
    cases hstart
  obtain ⟨hquote, hbracket⟩ := begins_word hstart (by decide)
  have hnumber : ∀ cs, Token.readNumber? (c :: cs) = none :=
    readNumber?_eq_none hdigit (ne_of_belongs hstart (by decide))
  refine ⟨⟨c, letters, hcs, hblank⟩, fun rest hrest => ?_⟩
  rw [hcs] at hfree ⊢
  -- neither a quote, a bracket nor a digit begins a name, so the longest name at hand is read
  have hread : Token.readName? (c :: (letters ++ rest)) =
      some (.name name, (c :: letters).length) := by
    rw [Token.readName?, splitName?_append hstart hletters hrest, Option.map_some]
    simp only [hfree]
    rw [← hcs, String.ofList_toList]
  rw [List.cons_append, Token.read, if_neg hquote, hbracket, hnumber, hread]
  rfl

/-! ### Numbers -/

theorem isDecimalDigit_of_mem_digitsOf {n : Nat} {c : Char} (h : c ∈ Number.digitsOf n) :
    isDecimalDigit c = true := by
  have hdigit : c.isDigit = true := Nat.isDigit_of_mem_toDigits (by decide) (by decide) h
  simpa [isDecimalDigit_iff, Char.isDigit, UInt32.le_iff_toNat_le] using hdigit

/-- The digits of a number read as the number. -/
theorem natOfDigits_digitsOf (n : Nat) : Number.natOfDigits (Number.digitsOf n) = n :=
  Nat.ofDigitChars_toDigits (by decide) (by decide)

/-- Only the digits of zero start with a zero. -/
theorem head?_digitsOf {n : Nat} (hpos : 0 < n) : (Number.digitsOf n).head? ≠ some '0' := by
  induction n using Nat.strongRecOn with
  | ind n ih =>
    rw [Number.digitsOf, Nat.toDigits_eq_if (by decide)]
    split
    · simp
      omega
    · next hten =>
      have hnext := ih (n / 10) (by omega) (by omega)
      rw [List.head?_append_of_ne_nil _ Nat.toDigits_ne_nil]
      exact hnext

theorem isEmpty_digitsOf (n : Nat) : (Number.digitsOf n).isEmpty = false := by
  rw [List.isEmpty_eq_false_iff]
  exact Nat.toDigits_ne_nil

theorem Number.readIndex?_digitsOf {n : Nat} (h : n < 2 ^ 64) : readIndex? (digitsOf n) = some n := by
  have hdigits : (digitsOf n).all isDecimalDigit = true :=
    List.all_eq_true.mpr fun c hc => isDecimalDigit_of_mem_digitsOf hc
  have hunsigned : ∀ ds, digitsOf n = '+' :: ds → False := fun ds heq => by
    have hsign := isDecimalDigit_of_mem_digitsOf (n := n) (heq ▸ List.mem_cons_self)
    revert hsign
    decide
  rw [readIndex?.eq_2 _ hunsigned, isEmpty_digitsOf, hdigits, natOfDigits_digitsOf]
  exact if_pos h

/-- Behind the digits of a number nothing belongs to it any more. -/
theorem takeDigits_digitsOf (n : Nat) {rest : List Char} (hrest : AtBlank rest) :
    Number.takeDigits (Number.digitsOf n ++ rest) = (Number.digitsOf n, rest) := by
  have hdigits : ∀ d ∈ Number.digitsOf n, isDecimalDigit d = true :=
    fun d hd => isDecimalDigit_of_mem_digitsOf hd
  obtain ⟨htake, hdrop⟩ := hrest.span_append (by decide) hdigits
  rw [Number.takeDigits, htake, hdrop]

theorem takeWhole_digitsOf (n : Nat) {rest : List Char} (hrest : AtBlank rest) :
    Token.takeWhole (Number.digitsOf n ++ rest) = (Number.digitsOf n, rest) := by
  rcases Nat.eq_zero_or_pos n with rfl | hpos
  · rfl
  · rw [Token.takeWhole.eq_2]
    · exact takeDigits_digitsOf n hrest
    · intro cs hzero
      have hhead := congrArg List.head? hzero
      rw [Number.digitsOf, List.head?_append_of_ne_nil _ Nat.toDigits_ne_nil] at hhead
      exact head?_digitsOf hpos hhead

theorem takeFraction_of_atBlank {rest : List Char} (h : AtBlank rest) :
    Number.takeFraction rest = ([], rest) := by
  rcases h.cases with rfl | ⟨cs, rfl⟩ <;> rfl

theorem takeExponent_of_atBlank {rest : List Char} (h : AtBlank rest) :
    Number.takeExponent rest = (0, rest) := by
  rcases h.cases with rfl | ⟨cs, rfl⟩ <;> rfl

/-- The digits of a number as a digit and the others. -/
theorem exists_digitsOf (n : Nat) :
    ∃ c cs, Number.digitsOf n = c :: cs ∧ isDecimalDigit c = true := by
  obtain ⟨c, cs, hcs⟩ := List.exists_cons_of_ne_nil (Nat.toDigits_ne_nil (n := n) (b := 10))
  exact ⟨c, cs, hcs, isDecimalDigit_of_mem_digitsOf (n := n) (by
    rw [Number.digitsOf, hcs]
    exact List.mem_cons_self)⟩

theorem takeSign_digitsOf (n : Nat) :
    Number.takeSign (Number.digitsOf n) = (false, Number.digitsOf n) := by
  obtain ⟨c, cs, hcs, hdigit⟩ := exists_digitsOf n
  rw [hcs, Number.takeSign.eq_3]
  · rintro _ ⟨⟩
    cases hdigit
  · rintro _ ⟨⟩
    cases hdigit

theorem readNumeral?_digitsOf {n : Nat} (h : n < 2 ^ 53) :
    Number.readNumeral? (Number.digitsOf n) = some (Number.ofNat n) := by
  have hdigits : Number.takeDigits (Number.digitsOf n) = (Number.digitsOf n, []) := by
    have htake := takeDigits_digitsOf n atBlank_nil
    rwa [List.append_nil] at htake
  have htake : Number.takeNumeral? (Number.digitsOf n) = some (⟨false, n, 0⟩, []) := by
    rw [Number.takeNumeral?, takeSign_digitsOf]
    simp only [hdigits, takeFraction_of_atBlank atBlank_nil,
      takeExponent_of_atBlank atBlank_nil, isEmpty_digitsOf, List.append_nil, natOfDigits_digitsOf]
    rfl
  rw [Number.readNumeral?, htake]
  simp only [Number.value_ofNat h]

theorem readNumber?_digitsOf {n : Nat} (h : n < 2 ^ 53) {rest : List Char} (hrest : AtBlank rest) :
    Token.readNumber? (Number.digitsOf n ++ rest) =
      some (.number (Number.ofNat n), (Number.digitsOf n).length) := by
  have hafter : Token.afterNumber? (Number.digitsOf n ++ rest) = some rest := by
    rw [Token.afterNumber?, takeWhole_digitsOf n hrest]
    simp only [takeFraction_of_atBlank hrest, isEmpty_digitsOf, ite_self,
      takeExponent_of_atBlank hrest]
    rfl
  have hlength : (Number.digitsOf n ++ rest).length - rest.length = (Number.digitsOf n).length := by
    rw [List.length_append, Nat.add_sub_cancel]
  rw [Token.readNumber?, hafter, Option.map_some]
  simp only [hlength, List.take_left, readNumeral?_digitsOf h, Option.getD_some]

theorem lexes_number {n : Nat} (h : n < 2 ^ 53) :
    Lexes (Number.digitsOf n) (.number (Number.ofNat n)) := by
  obtain ⟨c, cs, hcs, hdigit⟩ := exists_digitsOf n
  have hblank : isBlank c = false :=
    covers_eq_false (by decide +kernel) (covers_of_isDecimalDigit hdigit)
  obtain ⟨hquote, hbracket⟩ := begins_word hdigit (by decide)
  refine ⟨⟨c, cs, hcs, hblank⟩, fun rest hrest => ?_⟩
  have hnumber := readNumber?_digitsOf h hrest
  rw [hcs, List.cons_append] at hnumber ⊢
  rw [Token.read, if_neg hquote, hbracket, hnumber]
  rfl

/-! ### Printed tokens -/

/-- The names and numbers of a token can be printed. -/
def Token.Printable (quote : Char) : Token → Prop
  | .number x => IsSmallWhole x
  | .text raw => ∃ text, raw = String.ofList (quoteText quote text)
  | .name n => IsFreeName n
  | _ => True

theorem lexes_spell {quote : Char} (h : IsQuote quote) {t : Token} (ht : t.Printable quote) :
    Lexes (t.spell quote) t := by
  cases t with
  | opening b => exact lexes_opening b
  | closing b => exact lexes_closing b
  | number x =>
    obtain ⟨n, hn, rfl⟩ := ht
    rw [Token.spell, Number.toInt_ofNat hn]
    exact lexes_number hn
  | text raw =>
    obtain ⟨text, rfl⟩ := ht
    rw [Token.spell, String.toList_ofList]
    exact lexes_text h text
  | name n => exact lexes_name ht
  | word w => exact lexes_word w
  | symbol s => exact lexes_symbol s

end Stencil
