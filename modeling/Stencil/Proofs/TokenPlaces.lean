/-
Stencil/Proofs/TokenPlaces.lean

Where tokens stand.  A token is taken off the head of a text together with all its
characters, the last of which is no blank (`Taken`).  So the places of the tokens of a
code text that is anchored in a source lie within the source, one behind the other,
and a name stands exactly where its token does (`scan_inOrder`).

Where no token can be read, the fault lies within the source too (`scan_fault`): at the
character at hand, at the one behind a lone `&` or `|`, or at the end.
-/
import Stencil.Proofs.Places
import Stencil.Token.Scan

namespace Stencil

open Text

/-! ### What a token takes -/

/-- One of the characters of which numbers consist. -/
def isNumberPart (c : Char) : Bool := isDecimalDigit c || ['.', 'e', 'E', '+', '-'].contains c

/-- `Ahead cs rest`: what stands in front of `rest` in `cs` may be part of a number. -/
def Ahead (cs rest : List Char) : Prop :=
  ∃ word, cs = word ++ rest ∧ ∀ c ∈ word, isNumberPart c = true

theorem Ahead.refl (cs : List Char) : Ahead cs cs := ⟨[], rfl, nofun⟩

theorem Ahead.trans {cs middle rest : List Char} (h : Ahead cs middle) (h' : Ahead middle rest) :
    Ahead cs rest := by
  obtain ⟨word, rfl, hword⟩ := h
  obtain ⟨word', rfl, hword'⟩ := h'
  exact ⟨word ++ word', by simp, List.forall_mem_append.mpr ⟨hword, hword'⟩⟩

theorem Ahead.of_cons {c : Char} {cs rest : List Char} (hc : isNumberPart c = true)
    (h : Ahead cs rest) : Ahead (c :: cs) rest := by
  obtain ⟨word, rfl, hword⟩ := h
  exact ⟨c :: word, rfl, List.forall_mem_cons.mpr ⟨hc, hword⟩⟩

theorem Ahead.length_le {cs rest : List Char} (h : Ahead cs rest) : rest.length ≤ cs.length := by
  obtain ⟨word, rfl, -⟩ := h
  simp

namespace Number

theorem ahead_takeDigits (cs : List Char) : Ahead cs (takeDigits cs).2 := by
  refine ⟨cs.takeWhile isDecimalDigit, (List.takeWhile_append_dropWhile).symm, fun c hc => ?_⟩
  rw [isNumberPart, List.mem_takeWhile_imp hc, Bool.true_or]

theorem ahead_takeSign (cs : List Char) : Ahead cs (takeSign cs).2 := by
  fun_cases takeSign cs
  · exact .of_cons (by decide) (.refl _)
  · exact .of_cons (by decide) (.refl _)
  · exact .refl _

theorem ahead_takeFraction (cs : List Char) : Ahead cs (takeFraction cs).2 := by
  fun_cases takeFraction cs
  · exact .of_cons (by decide) (ahead_takeDigits _)
  · exact .refl _

theorem ahead_takeExponent (cs : List Char) : Ahead cs (takeExponent cs).2 := by
  rw [takeExponent.eq_def]
  split
  · next mark rest =>
    split
    · next hmark =>
      have hpart : isNumberPart mark = true := by
        rcases hmark with rfl | rfl <;> decide
      have hdigits := (ahead_takeSign rest).trans (ahead_takeDigits (takeSign rest).2)
      split
      · next negative signed hsign =>
        rw [hsign] at hdigits
        split
        · exact .refl _
        · next digits behind hbehind =>
          rw [hbehind] at hdigits
          exact hdigits.of_cons hpart
    · exact .refl _
  · exact .refl _

end Number

namespace Token

/-- The token is what the first `length` characters of the text are read as. -/
structure Taken (cs : List Char) (t : Token) (length : Nat) : Prop where
  pos : 0 < length
  le : length ≤ cs.length
  last : (cs.take length).getLast? ≠ some ' '
  name : ∀ n, t = .name n → cs.take length = n.toList ∧ ∀ c ∈ n.toList, isNamePart c = true

/-- A token that is no name, off the front of a text without blanks in it. -/
theorem Taken.of_word {word rest : List Char} {t : Token} (hne : word ≠ [])
    (hlast : word.getLast? ≠ some ' ') (ht : ∀ n, t ≠ .name n) :
    Taken (word ++ rest) t word.length where
  pos := List.length_pos_of_ne_nil hne
  le := by simp
  last := by rwa [List.take_left]
  name n h := absurd h (ht n)

theorem takeQuoted?_spec {quote : Char} {cs raw : List Char} (h : takeQuoted? quote cs = some raw) :
    ∃ rest, cs = raw ++ quote :: rest := by
  fun_induction takeQuoted? quote cs generalizing raw with
  | case1 => cases h
  | case2 c cs ih =>
    obtain ⟨inner, hinner, rfl⟩ := Option.map_eq_some_iff.mp h
    obtain ⟨rest, rfl⟩ := ih hinner
    exact ⟨rest, rfl⟩
  | case3 cs =>
    obtain rfl := Option.some.inj h
    exact ⟨cs, rfl⟩
  | case4 c cs _ hc ih =>
    obtain ⟨inner, hinner, rfl⟩ := Option.map_eq_some_iff.mp h
    obtain ⟨rest, rfl⟩ := ih hinner
    exact ⟨rest, rfl⟩

theorem Taken.text {quote : Char} {cs raw : List Char} (hquote : quote = '\'' ∨ quote = '"')
    (h : takeQuoted? quote cs = some raw) :
    Taken (quote :: cs) (.text (String.ofList raw)) (raw.length + 2) := by
  obtain ⟨rest, rfl⟩ := takeQuoted?_spec h
  have hlast : (quote :: (raw ++ [quote])).getLast? ≠ some ' ' := by
    rw [← List.cons_append, List.getLast?_concat]
    rintro ⟨⟩
    revert hquote
    decide
  have htaken : Taken (quote :: (raw ++ [quote]) ++ rest) (.text (String.ofList raw)) _ :=
    .of_word (List.cons_ne_nil _ _) hlast nofun
  simpa using htaken

/-- A bracket is one character. -/
theorem readBracket?_spec {c : Char} {cs : List Char} {t : Token} {length : Nat}
    (h : readBracket? (c :: cs) = some (t, length)) :
    length = 1 ∧ ((∃ b, t = .opening b) ∨ ∃ b, t = .closing b) := by
  rw [readBracket?] at h
  split at h
  · cases h
    exact ⟨rfl, .inl ⟨_, rfl⟩⟩
  · cases h
    exact ⟨rfl, .inr ⟨_, rfl⟩⟩
  · cases h

theorem Taken.bracket {c : Char} {cs : List Char} {t : Token} {length : Nat} (hc : c ≠ ' ')
    (h : readBracket? (c :: cs) = some (t, length)) : Taken (c :: cs) t length := by
  have hlast : [c].getLast? ≠ some ' ' := fun hlast => hc (Option.some.inj hlast)
  obtain ⟨rfl, ⟨b, rfl⟩ | ⟨b, rfl⟩⟩ := readBracket?_spec h
  · exact .of_word (List.cons_ne_nil c []) hlast nofun
  · exact .of_word (List.cons_ne_nil c []) hlast nofun

theorem ahead_takeWhole (cs : List Char) : Ahead cs (takeWhole cs).2 := by
  fun_cases takeWhole cs
  · exact .of_cons (by decide) (.refl _)
  · exact Number.ahead_takeDigits _

theorem length_takeDigits (cs : List Char) :
    (Number.takeDigits cs).1.length + (Number.takeDigits cs).2.length = cs.length := by
  rw [Number.takeDigits, ← List.length_append, List.takeWhile_append_dropWhile]

theorem length_takeWhole (cs : List Char) :
    (takeWhole cs).1.length + (takeWhole cs).2.length = cs.length := by
  fun_cases takeWhole cs
  · exact Nat.add_comm 1 _
  · exact length_takeDigits cs

theorem length_takeFraction (cs : List Char) :
    (Number.takeFraction cs).1.length + (Number.takeFraction cs).2.length ≤ cs.length := by
  fun_cases Number.takeFraction cs
  · exact Nat.le_succ_of_le (Nat.le_of_eq (length_takeDigits _))
  · exact Nat.le_of_eq (Nat.zero_add _)

/-- A number takes at least one character. -/
theorem afterNumber?_spec {cs rest : List Char} (h : afterNumber? cs = some rest) :
    Ahead cs rest ∧ rest.length < cs.length := by
  have hwhole := ahead_takeWhole cs
  have hlength := length_takeWhole cs
  simp only [afterNumber?] at h
  generalize takeWhole cs = whole at h hwhole hlength
  obtain ⟨digits, behind⟩ := whole
  have hfraction := Number.ahead_takeFraction behind
  have hpart := length_takeFraction behind
  generalize Number.takeFraction behind = fraction at h hfraction hpart
  obtain ⟨places, left⟩ := fraction
  simp only at h hwhole hlength hfraction hpart
  split at h
  · cases h
  · next hempty =>
    cases h
    rw [Bool.and_eq_true, List.isEmpty_iff, List.isEmpty_iff] at hempty
    -- the whole part takes a character, or the places behind the point do
    cases places with
    | nil =>
      have hne : digits ≠ [] := fun hdigits => hempty ⟨hdigits, rfl⟩
      have hpos := List.length_pos_of_ne_nil hne
      have hexponent := Number.ahead_takeExponent behind
      refine ⟨hwhole.trans hexponent, ?_⟩
      have hle := hexponent.length_le
      simp only [List.isEmpty_nil, if_true]
      omega
    | cons place places =>
      have hexponent := Number.ahead_takeExponent left
      refine ⟨(hwhole.trans hfraction).trans hexponent, ?_⟩
      have hle := hexponent.length_le
      simp only [List.length_cons] at hpart
      simp only [List.isEmpty_cons, Bool.false_eq_true, if_false]
      omega

/-- A number is read off some characters of numbers. -/
theorem readNumber?_spec {cs : List Char} {t : Token} {length : Nat}
    (h : readNumber? cs = some (t, length)) :
    ∃ word rest x, cs = word ++ rest ∧ length = word.length ∧ word ≠ [] ∧
      (∀ c ∈ word, isNumberPart c = true) ∧ t = .number x := by
  obtain ⟨rest, hafter, hread⟩ := Option.map_eq_some_iff.mp h
  obtain ⟨⟨word, rfl, hword⟩, hshorter⟩ := afterNumber?_spec hafter
  cases hread
  have hne : word ≠ [] := by
    rintro rfl
    exact Nat.lt_irrefl _ hshorter
  exact ⟨word, rest, _, rfl, by rw [List.length_append, Nat.add_sub_cancel], hne, hword, rfl⟩

/-- A name or a reserved word is read off some characters of names. -/
theorem readName?_spec {cs : List Char} {t : Token} {length : Nat}
    (h : readName? cs = some (t, length)) :
    ∃ word rest, cs = word ++ rest ∧ length = word.length ∧ word ≠ [] ∧
      (∀ c ∈ word, isNamePart c = true) ∧ (t = .name (String.ofList word) ∨ ∃ w, t = .word w) := by
  obtain ⟨⟨word, rest⟩, hsplit, hread⟩ := Option.map_eq_some_iff.mp h
  obtain ⟨hne, hword, rfl⟩ := splitName?_spec hsplit
  simp only at hread
  split at hread
  · cases hread
    exact ⟨word, rest, rfl, rfl, hne, hword, .inr ⟨_, rfl⟩⟩
  · cases hread
    exact ⟨word, rest, rfl, rfl, hne, hword, .inl rfl⟩

/-- A symbol is read off its spelling. -/
theorem readSymbol?_spec {cs : List Char} {t : Token} {length : Nat}
    (h : readSymbol? cs = some (t, length)) :
    ∃ s rest, cs = s.spelling ++ rest ∧ length = s.spelling.length ∧ t = .symbol s := by
  obtain ⟨s, hs, hread⟩ := Option.map_eq_some_iff.mp h
  have hspelling : s.spelling.isPrefixOf cs = true := by simpa using List.find?_some hs
  obtain ⟨rest, rfl⟩ := List.isPrefixOf_iff_prefix.mp hspelling
  cases hread
  exact ⟨s, rest, rfl, rfl, rfl⟩

theorem ne_blank_of_isNamePart {c : Char} (h : isNamePart c = true) : c ≠ ' ' := by
  rintro rfl
  revert h
  decide +kernel

theorem Taken.number {cs : List Char} {t : Token} {length : Nat}
    (h : readNumber? cs = some (t, length)) : Taken cs t length := by
  obtain ⟨word, rest, x, rfl, rfl, hne, hword, rfl⟩ := readNumber?_spec h
  refine .of_word hne (fun hlast => ?_) nofun
  cases hword ' ' (List.mem_of_getLast? hlast)

theorem Taken.letters {cs : List Char} {t : Token} {length : Nat}
    (h : readName? cs = some (t, length)) : Taken cs t length := by
  obtain ⟨word, rest, rfl, rfl, hne, hword, hname⟩ := readName?_spec h
  have hlast : word.getLast? ≠ some ' ' := fun hlast =>
    ne_blank_of_isNamePart (hword ' ' (List.mem_of_getLast? hlast)) rfl
  rcases hname with rfl | ⟨w, rfl⟩
  · refine ⟨List.length_pos_of_ne_nil hne, by simp, by rwa [List.take_left], ?_⟩
    rintro n ⟨⟩
    rw [String.toList_ofList, List.take_left]
    exact ⟨rfl, hword⟩
  · exact .of_word hne hlast nofun

theorem Taken.sign {cs : List Char} {t : Token} {length : Nat}
    (h : readSymbol? cs = some (t, length)) : Taken cs t length := by
  obtain ⟨s, rest, rfl, rfl, rfl⟩ := readSymbol?_spec h
  exact .of_word (by cases s <;> nofun) (by cases s <;> decide) nofun

theorem taken_of_read {c : Char} {cs : List Char} {t : Token} {length : Nat} (hc : c ≠ ' ')
    (h : read (c :: cs) = .token t length) : Taken (c :: cs) t length := by
  rw [read] at h
  split at h
  · next hquote =>
    split at h
    · next raw hraw =>
      cases h
      exact .text hquote hraw
    · cases h
  · split at h
    · next t' length' hread =>
      cases h
      simp only [Option.orElse_eq_orElse, Option.orElse_eq_or, Option.or_eq_some_iff] at hread
      rcases hread with hread | ⟨-, hread | ⟨-, hread | ⟨-, hread⟩⟩⟩
      · exact .bracket hc hread
      · exact .number hread
      · exact .letters hread
      · exact .sign hread
    · cases h

/-- How much of a text might begin a token where none can be read. -/
theorem reach_of_read {c : Char} {cs : List Char} {reach : Nat} (h : read (c :: cs) = .stuck reach) :
    reach = 0 ∨ reach = 1 ∨ reach = cs.length + 1 := by
  rw [read] at h
  split at h
  · split at h
    · cases h
    · cases h
      exact .inr (.inr rfl)
  · split at h
    · cases h
    · cases h
      split
      · exact .inr (.inl rfl)
      · exact .inl rfl

end Token

/-! ### Tokens in their places -/

/-- A token lies within the source, and a name is written where its token is. -/
structure Token.Placed (source : List Char) (t : Token) (span : Span) : Prop where
  within : Within source span
  spells : ∀ n, t = .name n → Spells source span n.toList

/-- The tokens lie within the source, in order and behind an offset. -/
inductive InOrder (source : List Char) : Nat → List (Token × Span) → Prop
  | nil {limit : Nat} : InOrder source limit []
  | cons {limit : Nat} {t : Token} {span : Span} {rest : List (Token × Span)} :
      limit ≤ span.start → t.Placed source span → InOrder source span.stop rest →
      InOrder source limit ((t, span) :: rest)

theorem InOrder.mono {source : List Char} {limit before : Nat} {tokens : List (Token × Span)}
    (h : InOrder source limit tokens) (hle : before ≤ limit) : InOrder source before tokens := by
  cases h with
  | nil => exact .nil
  | cons hlimit ht hrest => exact .cons (hle.trans hlimit) ht hrest

section Scan

variable {source : List Char} {code : Slice} {front cs : List Char}

/-- A token that is taken lies where its characters do. -/
theorem Token.Taken.placed {c : Char} {t : Token} {length : Nat} (h : Taken (c :: cs) t length)
    (hcode : code.Anchored source) (hchars : code.chars = front ++ c :: cs) (hc : c ≠ ' ') :
    t.Placed source ⟨code.start + bytes front,
      code.start + bytes front + bytes ((c :: cs).take length)⟩ := by
  have hsplit : code.chars = front ++ (c :: cs).take length ++ (c :: cs).drop length := by
    rw [List.append_assoc, List.take_append_drop, hchars]
  have hne : (c :: cs).take length ≠ [] := by
    intro hnil
    have hempty := List.take_eq_nil_iff.mp hnil
    have hpos := h.pos
    simp only [reduceCtorEq, or_false] at hempty
    omega
  refine ⟨⟨?_, ?_, Nat.le_add_right _ _⟩, fun n hn => ⟨?_, ?_⟩⟩
  · exact hcode.boundary hchars (.inr fun hhead => hc (Option.some.inj hhead))
  · have hstop := hcode.boundary hsplit (.inl (by
      rw [List.getLast?_append_of_ne_nil _ hne]
      exact h.last))
    rwa [bytes_append, ← Nat.add_assoc] at hstop
  · obtain ⟨htake, hletters⟩ := h.name n hn
    rw [htake] at hsplit hne
    refine hcode.stands hsplit (fun d hd => ?_) hne
    have hd := hletters d hd
    refine ⟨Token.ne_blank_of_isNamePart hd, ?_, ?_⟩ <;> (rintro rfl; revert hd; decide +kernel)
  · rw [(h.name n hn).1]

/-- Tokens that can be read lie within the source, in order. -/
theorem scanFrom_inOrder (hcode : code.Anchored source) (skip : Nat) {tokens : List (Token × Span)}
    (hchars : code.chars = front ++ cs) (hskip : skip ≤ cs.length)
    (h : Token.scanFrom skip (code.start + bytes front) cs = .ok tokens) :
    InOrder source (code.start + bytes front + bytes (cs.take skip)) tokens := by
  -- by induction on the text behind `front`; while the characters of a token are skipped, what comes
  -- next lies behind all of them
  induction cs generalizing skip front tokens with
  | nil =>
    cases h
    exact .nil
  | cons c cs ih =>
    have hnext : code.start + bytes front + c.utf8Size = code.start + bytes (front ++ [c]) := by
      simp [Nat.add_assoc]
    have hrest : code.chars = (front ++ [c]) ++ cs := by simp [hchars]
    cases skip with
    | succ skip =>
      rw [Token.scanFrom, hnext] at h
      have hin := ih skip hrest (Nat.le_of_succ_le_succ hskip) h
      rw [← hnext, Nat.add_assoc (code.start + bytes front)] at hin
      exact hin
    | zero =>
      rw [Token.scanFrom, hnext] at h
      split at h
      · have hin := ih 0 hrest (Nat.zero_le _) h
        exact hin.mono (by simp)
      · -- a token is read here, and the other ones lie behind its last character
        next hblank =>
        have hc : c ≠ ' ' := by
          rintro rfl
          exact hblank rfl
        split at h
        · next t length hread =>
          have htaken := Token.taken_of_read hc hread
          rcases hscan : Token.scanFrom (length - 1) (code.start + bytes (front ++ [c])) cs
            with fault | rest
          · rw [hscan] at h
            cases h
          · rw [hscan] at h
            cases h
            have hle : length - 1 ≤ cs.length := by
              have hle := htaken.le
              rw [List.length_cons] at hle
              omega
            refine .cons (by simp) (htaken.placed hcode hchars hc) ?_
            have hin := ih (length - 1) hrest hle hscan
            -- the first character of the token has been passed, and the others are skipped
            obtain ⟨n, rfl⟩ := Nat.exists_eq_succ_of_ne_zero (Nat.ne_of_gt htaken.pos)
            rw [← hnext, Nat.succ_sub_one, Nat.add_assoc (code.start + bytes front)] at hin
            exact hin
        · cases h

/-- The character behind one that is no blank, or the end if there is none, lies within the source. -/
theorem within_head {c : Char} (hcode : code.Anchored source) (hchars : code.chars = front ++ c :: cs)
    (hc : c ≠ ' ') : Within source (Slice.head ⟨code.start + bytes front + c.utf8Size, cs⟩) := by
  have hbehind : code.chars = (front ++ [c]) ++ cs := by simp [hchars]
  have hlast : (front ++ [c]).getLast? ≠ some ' ' := by simpa using hc
  have hstart := hcode.boundary hbehind (.inl hlast)
  rw [bytes_append, bytes_cons, bytes_nil, Nat.add_zero, ← Nat.add_assoc] at hstart
  cases cs with
  | nil => exact hstart.within_at
  | cons d cs =>
    refine ⟨hstart, ?_, Nat.le_add_right _ _⟩
    -- a blank is one byte there, and anything else ends where it is written
    by_cases hd : d = ' '
    · subst hd
      exact hcode.boundary_blank hchars hc
    · have hboth : code.chars = (front ++ [c, d]) ++ cs := by simp [hchars]
      have hstop := hcode.boundary hboth (.inl (by simpa using hd))
      simpa [Slice.head, Nat.add_assoc] using hstop

theorem within_reach {c : Char} {reach : Nat} (hcode : code.Anchored source)
    (hchars : code.chars = front ++ c :: cs) (hc : c ≠ ' ')
    (hread : Token.read (c :: cs) = .stuck reach) :
    Within source ((⟨code.start + bytes front, c :: cs⟩ : Slice).drop reach).head := by
  rcases Token.reach_of_read hread with rfl | rfl | rfl
  · have hbehind : code.chars = (front ++ [c]) ++ cs := by simp [hchars]
    have hstart := hcode.boundary hchars (.inr fun hhead => hc (Option.some.inj hhead))
    have hstop := hcode.boundary hbehind (.inl (by simpa using hc))
    rw [bytes_append, ← Nat.add_assoc] at hstop
    exact ⟨hstart, hstop, Nat.le_add_right _ _⟩
  · exact within_head hcode hchars hc
  · have hend : ((⟨code.start + bytes front, c :: cs⟩ : Slice).drop (cs.length + 1)).head =
        .at code.stop := by
      simp [Slice.drop, Slice.head, Slice.stop, hchars, Span.at, Nat.add_assoc]
    rw [hend]
    exact hcode.stop.within_at

/-- Where no token can be read, the fault lies within the source. -/
theorem scanFrom_fault (hcode : code.Anchored source) (skip : Nat) {span : Span}
    (hchars : code.chars = front ++ cs)
    (h : Token.scanFrom skip (code.start + bytes front) cs = .error span) : Within source span := by
  induction cs generalizing skip front with
  | nil => cases h
  | cons c cs ih =>
    have hnext : code.start + bytes front + c.utf8Size = code.start + bytes (front ++ [c]) := by
      simp [Nat.add_assoc]
    have hrest : code.chars = (front ++ [c]) ++ cs := by simp [hchars]
    cases skip with
    -- inside of a token that has been read
    | succ skip =>
      rw [Token.scanFrom, hnext] at h
      exact ih skip hrest h
    | zero =>
      rw [Token.scanFrom, hnext] at h
      split at h
      · exact ih 0 hrest h
      · next hblank =>
        have hc : c ≠ ' ' := by
          rintro rfl
          exact hblank rfl
        split at h
        · next t length hread =>
          rcases hscan : Token.scanFrom (length - 1) (code.start + bytes (front ++ [c])) cs
            with fault | rest
          · rw [hscan] at h
            cases h
            exact ih _ hrest hscan
          · rw [hscan] at h
            cases h
        · next reach hread =>
          cases h
          -- the reader says how far the text that it refuses reaches
          exact within_reach hcode hchars hc hread

/-- The tokens of a code text lie within the source, in order. -/
theorem scan_inOrder {tokens : List (Token × Span)} (hcode : code.Anchored source)
    (h : Token.scan code = .ok tokens) : InOrder source code.start tokens :=
  scanFrom_inOrder hcode 0 (List.nil_append _).symm (Nat.zero_le _) h

theorem scan_fault {span : Span} (hcode : code.Anchored source) (h : Token.scan code = .error span) :
    Within source span :=
  scanFrom_fault hcode 0 (List.nil_append _).symm h

end Scan

end Stencil
