/-
Stencil/Proofs/TokenTiling.lean

A code text is tiled by its tokens and by white space.  Every token is read off a word of
the text (`Lexed.of_mem`), the words follow one another (`Lexed.ordered`), and what belongs
to no word is blank (`Lexed.blank_of_uncovered`).  Nothing around a word is needed to read
it: the word by itself is scanned to its token (`scan_word`).

A word is written as its token demands.  What stands behind it does say where it ends: a name
takes along every character that could be part of it, and a symbol is not the beginning of a
longer one that is written there (`Token.worded_of_read`).

The main result, `scan_tiled`, says all this of every code text that is scanned to tokens.
-/
import Stencil.Proofs.TokenCuts

namespace Stencil

open Text

/-! ### Words of tokens -/

/-- The word is written as the token demands. -/
inductive Token.Worded : List Char → Token → Prop
  | opening (b : Bracket) : Worded [b.opener] (.opening b)
  | closing (b : Bracket) : Worded [b.closer] (.closing b)
  | number {word : List Char} (x : Float) : (∀ c ∈ word, isNumberPart c = true) →
      Worded word (.number x)
  | text {quote : Char} (raw : List Char) : quote = '\'' ∨ quote = '"' →
      Worded (quote :: (raw ++ [quote])) (.text (String.ofList raw))
  | name {word : List Char} : (∀ c ∈ word, isNamePart c = true) →
      Worded word (.name (String.ofList word))
  | word {word : List Char} (w : Word) : (∀ c ∈ word, isNamePart c = true) → Worded word (.word w)
  | symbol (s : Symbol) : Worded s.spelling (.symbol s)

/-- With `rest` behind its word, the token could not go on: a name or a reserved word with any character of
names, a symbol with any character that some longer symbol has there. -/
def Token.Maximal (word rest : List Char) : Token → Prop
  | .name _ | .word _ => ∀ c ∈ rest.head?, isNamePart c = false
  | .symbol _ => ∀ c ∈ rest.head?, ∀ longer : Symbol, ¬word ++ [c] <+: longer.spelling
  | .opening _ | .closing _ | .number _ | .text _ => True

namespace Token

variable {word rest cs : List Char} {c : Char} {t : Token}

theorem worded_of_readBracket? {length : Nat} (h : readBracket? (c :: cs) = some (t, length)) :
    length = 1 ∧ Worded [c] t := by
  rw [readBracket?] at h
  split at h
  · next b hb =>
    cases h
    obtain rfl : b.opener = c := by simpa using List.find?_some hb
    exact ⟨rfl, .opening b⟩
  · next b _ hb =>
    cases h
    obtain rfl : b.closer = c := by simpa using List.find?_some hb
    exact ⟨rfl, .closing b⟩
  · cases h

/-- A bracket is written as such and never goes on. -/
theorem read_bracket (h : readBracket? (word ++ rest) = some (t, word.length)) :
    Worded word t ∧ t.Maximal word rest := by
  cases word with
  | nil =>
    cases rest with
    | nil => cases h
    | cons c cs => cases (worded_of_readBracket? h).1
  | cons c cs =>
    obtain ⟨hlength, hworded⟩ := worded_of_readBracket? h
    obtain rfl := List.eq_nil_of_length_eq_zero (Nat.succ.inj hlength)
    refine ⟨hworded, ?_⟩
    obtain ⟨-, ⟨b, rfl⟩ | ⟨b, rfl⟩⟩ := readBracket?_spec h <;> trivial

theorem read_number (h : readNumber? (word ++ rest) = some (t, word.length)) :
    Worded word t ∧ t.Maximal word rest := by
  obtain ⟨front, left, x, hsplit, hlength, -, hparts, rfl⟩ := readNumber?_spec h
  obtain ⟨rfl, -⟩ := List.append_inj hsplit hlength
  exact ⟨.number x hparts, trivial⟩

/-- A name or a reserved word takes along every character of names. -/
theorem read_name (h : readName? (word ++ rest) = some (t, word.length)) :
    Worded word t ∧ t.Maximal word rest := by
  have hends := splitName?_ends (splitName?_of_readName? h)
  obtain ⟨front, left, hsplit, hlength, -, hparts, ht⟩ := readName?_spec h
  obtain ⟨rfl, -⟩ := List.append_inj hsplit hlength
  rcases ht with rfl | ⟨w, rfl⟩
  · exact ⟨.name hparts, hends⟩
  · exact ⟨.word w hparts, hends⟩

/-- The longest symbol is read. -/
theorem read_symbol (h : readSymbol? (word ++ rest) = some (t, word.length)) :
    Worded word t ∧ t.Maximal word rest := by
  obtain ⟨s, left, hleft, hlength, rfl⟩ := readSymbol?_spec h
  obtain ⟨rfl, -⟩ := List.append_inj hleft hlength
  refine ⟨.symbol s, fun c hc longer hlonger => ?_⟩
  obtain ⟨hgrows, rfl⟩ := mem_growing_of_prefix hlonger
  exact (readSymbol?_spelling s rest).mp h hgrows hc

theorem read_text (hquote : c = '\'' ∨ c = '"') {raw : List Char}
    (h : takeQuoted? c (cs ++ rest) = some raw) (hlength : raw.length + 2 = (c :: cs).length) :
    Worded (c :: cs) (.text (String.ofList raw)) := by
  obtain ⟨left, hleft⟩ := takeQuoted?_spec h
  have hsplit : cs ++ rest = raw ++ [c] ++ left := by rw [hleft, List.append_assoc]; rfl
  obtain ⟨rfl, -⟩ := List.append_inj hsplit (by simpa using hlength.symm)
  exact .text raw hquote

/-- What a token is read off is its word, and the token is as long as it can be. -/
theorem worded_of_read (hne : word ≠ []) (h : read (word ++ rest) = .token t word.length) :
    Worded word t ∧ t.Maximal word rest := by
  obtain ⟨c, cs, rfl⟩ := List.exists_cons_of_ne_nil hne
  rw [List.cons_append] at h
  by_cases hquote : c = '\'' ∨ c = '"'
  · rw [read_quote hquote] at h
    split at h
    · next raw hraw =>
      obtain ⟨rfl, hlength⟩ := Reading.token.inj h
      exact ⟨read_text hquote hraw hlength, trivial⟩
    · cases h
  · rw [read_plain hquote] at h
    split at h
    · next t' length hread =>
      cases h
      rcases readPlain?_eq_some_iff.mp hread with h | ⟨-, h | ⟨-, h | ⟨-, h⟩⟩⟩
      · exact read_bracket h
      · exact read_number h
      · exact read_name h
      · exact read_symbol h
    · cases h

end Token

/-- A word that some text begins with and that is read as a token there is that token by itself. -/
theorem scan_word {c : Char} {word rest : List Char} {t : Token} (hblank : isBlank c = false)
    (hread : Token.read (c :: word ++ rest) = .token t (c :: word).length) :
    Token.scan ⟨0, c :: word⟩ = .ok [(t, ⟨0, bytes (c :: word)⟩)] := by
  have halone := Token.read_softened (List.cons_ne_nil _ _) hread (.nil rest)
  have hword : Lexed [] 0 (c :: word ++ []) _ := .token hblank halone (.nil _)
  rw [List.append_nil, Nat.zero_add] at hword
  exact hword.scan

/-! ### The words of a text -/

namespace Lexed

variable {behind : List Char} {offset : Nat} {cs : List Char} {ts : List (Token × Span)}

/-- A token is read off a word of the text, which stands at its span. -/
theorem of_mem {t : Token} {span : Span} (h : Lexed behind offset cs ts) (hmem : (t, span) ∈ ts) :
    ∃ front c word back, cs = front ++ (c :: word ++ back) ∧
      span = ⟨offset + bytes front, offset + bytes front + bytes (c :: word)⟩ ∧
      isBlank c = false ∧ Token.read (c :: word ++ (back ++ behind)) = .token t (c :: word).length := by
  induction h with
  | nil => cases hmem
  | @blank offset d cs ts _ _ ih =>
    obtain ⟨front, c, word, back, rfl, rfl, hread⟩ := ih hmem
    refine ⟨d :: front, c, word, back, rfl, ?_, hread⟩
    rw [bytes_cons d, ← Nat.add_assoc]
  | @token offset c word cs t' ts hblank hread _ ih =>
    rcases List.mem_cons.mp hmem with heq | hmem
    · cases heq
      exact ⟨[], c, word, cs, rfl, rfl, hblank, hread⟩
    · obtain ⟨front, d, word', back, rfl, rfl, hread'⟩ := ih hmem
      refine ⟨c :: word ++ front, d, word', back, (List.append_assoc _ _ _).symm, ?_, hread'⟩
      rw [bytes_append, ← Nat.add_assoc]

/-- Every token ends before the next ones start. -/
theorem ordered (h : Lexed behind offset cs ts) :
    ts.Pairwise fun first second => first.2.stop ≤ second.2.start := by
  induction h with
  | nil => exact .nil
  | blank _ _ ih => exact ih
  | token _ _ hcs ih =>
    refine .cons ?_ ih
    rintro ⟨t, span⟩ hmem
    obtain ⟨front, c, word, back, -, rfl, -⟩ := hcs.of_mem hmem
    exact Nat.le_add_right _ _

/-- A character that stands at none of the tokens is blank. -/
theorem blank_of_uncovered {front back : List Char} {d : Char} (h : Lexed behind offset cs ts)
    (hcs : cs = front ++ d :: back)
    (hout : ∀ t span, (t, span) ∈ ts →
      ¬(span.start ≤ offset + bytes front ∧ offset + bytes front < span.stop)) :
    isBlank d = true := by
  induction h generalizing front with
  | nil => exact absurd hcs.symm (by simp)
  | @blank offset c cs ts hblank _ ih =>
    cases front with
    | nil =>
      obtain ⟨rfl, -⟩ := List.cons.inj hcs
      exact hblank
    | cons e front =>
      obtain ⟨rfl, rfl⟩ := List.cons.inj hcs
      refine ih rfl ?_
      rwa [bytes_cons, ← Nat.add_assoc] at hout
  | @token offset c word cs t ts _ _ _ ih =>
    rcases List.append_eq_append_iff.mp hcs with ⟨left, rfl, rfl⟩ | ⟨left, hword, hleft⟩
    · -- the character stands behind the word
      refine ih rfl fun t span hmem => ?_
      have hspan := hout t span (List.mem_cons_of_mem _ hmem)
      rwa [bytes_append, ← Nat.add_assoc] at hspan
    · cases left with
      | nil =>
        refine ih (show cs = [] ++ d :: back from hleft.symm) fun t span hmem => ?_
        have hspan := hout t span (List.mem_cons_of_mem _ hmem)
        rwa [hword, List.append_nil]
      | cons e left =>
        -- the character is one of the word
        refine absurd ⟨Nat.le_add_right _ _, Nat.add_lt_add_left ?_ _⟩ (hout t _ List.mem_cons_self)
        rw [hword, bytes_append]
        exact Nat.lt_add_of_pos_right (bytes_pos (List.cons_ne_nil _ _))

end Lexed

/-! ### Code texts -/

/-- The token is what the text says at the span: the word there is written as the token demands, it is
scanned to that token alone, from its first byte to its last, and the token could not go on with what
stands behind. -/
structure TileOf (code : Slice) (t : Token) (span : Span) (front word back : List Char) : Prop where
  chars : code.chars = front ++ (word ++ back)
  start : span.start = code.start + bytes front
  stop : span.stop = code.start + bytes (front ++ word)
  nonempty : span.start < span.stop
  worded : Token.Worded word t
  alone : Token.scan ⟨0, word⟩ = .ok [(t, ⟨0, bytes word⟩)]
  maximal : t.Maximal word back

/-- The tokens and the white space of a code text: the tokens follow one another, each of them is what the
text says at its span, and a character at whose place none of them stands is white space. -/
structure Tiled (code : Slice) (tokens : List (Token × Span)) : Prop where
  ordered : tokens.Pairwise fun first second => first.2.stop ≤ second.2.start
  tile : ∀ t span, (t, span) ∈ tokens → ∃ front word back, TileOf code t span front word back
  blank : ∀ front c back, code.chars = front ++ c :: back →
    (∀ t span, (t, span) ∈ tokens →
      ¬(span.start ≤ code.start + bytes front ∧ code.start + bytes front < span.stop)) →
    isBlank c = true

/-- **Tokens tile their code.**  Whatever code text is read as tokens is made of their words and of white
space, and the words are read as the same tokens by themselves. -/
theorem scan_tiled {code : Slice} {tokens : List (Token × Span)} (h : Token.scan code = .ok tokens) :
    Tiled code tokens where
  ordered := (scan_eq_ok_iff.mp h).ordered
  tile t span hmem := by
    obtain ⟨front, c, word, back, hchars, rfl, hblank, hread⟩ := (scan_eq_ok_iff.mp h).of_mem hmem
    rw [List.append_nil] at hread
    obtain ⟨hworded, hmaximal⟩ := Token.worded_of_read (List.cons_ne_nil _ _) hread
    refine ⟨front, c :: word, back, hchars, rfl, ?_, ?_, hworded, scan_word hblank hread, hmaximal⟩
    · rw [bytes_append, Nat.add_assoc]
    · exact Nat.lt_add_of_pos_right (bytes_pos (List.cons_ne_nil _ _))
  blank _ _ _ hchars hout := (scan_eq_ok_iff.mp h).blank_of_uncovered hchars hout

/-- Words, a symbol that shorter ones begin and a character of two bytes. -/
theorem scan_tiled_comparison :
    let code : Slice := ⟨4, "größe!== true".toList⟩
    let tokens : List (Token × Span) :=
      [(.name "größe", ⟨4, 11⟩), (.symbol .strictNotEqual, ⟨11, 14⟩), (.word .trueWord, ⟨15, 19⟩)]
    Token.scan code = .ok tokens ∧ Tiled code tokens := by
  intro code tokens
  have hscan : Token.scan code = .ok tokens := by decide +kernel
  exact ⟨hscan, scan_tiled hscan⟩

end Stencil
