/-
Stencil/Proofs/LineComments.lean

Line comments and tokens.  The walk that blanks comments and the reader of tokens tell
quoted text from code each in its own way.  They agree: where the reader has reached a
token of the blanked text, the walk is in code or in a comment that it has blanked
(`InStep`), and a quoted text is passed over by both alike.

So nothing in a quoted text is blanked, and two slashes that are left side by side in
code have no line break behind them; blanking once more changes nothing.  The main
result, `blankComments_agrees`, says so of every part of a blanked text that can be read.
-/
import Stencil.Proofs.Segmentation
import Stencil.Proofs.TokenCuts

namespace Stencil

open Text

variable {raw text body back front word : List Char} {c quote : Char} {walk : CommentWalk}
  {t : Token} {offset : Nat} {ts : List (Token × Span)}

/-! ### One pass -/

/-- Blanking makes no line breaks. -/
theorem mem_of_mem_blankComments (h : '\n' ∈ blankComments walk raw) : '\n' ∈ raw := by
  induction raw generalizing walk with
  | nil => exact h
  | cons c raw ih =>
    have hkeep {walk : CommentWalk} (h : '\n' ∈ c :: blankComments walk raw) : '\n' ∈ c :: raw := by
      rcases List.mem_cons.mp h with rfl | h
      · exact List.mem_cons_self
      · exact List.mem_cons_of_mem _ (ih h)
    cases walk with
    | quoted quote => exact hkeep h
    | escaped quote => exact hkeep h
    | comment =>
      rw [blankComments, List.mem_append] at h
      rcases h with h | h
      · cases List.eq_of_mem_replicate h
      · exact List.mem_cons_of_mem _ (ih h)
    | code =>
      rw [blankComments] at h
      split at h
      · exact hkeep h
      · split at h
        · exact List.mem_cons_of_mem _ (ih (List.mem_of_ne_of_mem (by decide) h))
        · exact hkeep h

/-- A comment begins here. -/
def BeginsComment (cs : List Char) : Prop := ∃ rest, cs = '/' :: '/' :: rest ∧ '\n' ∈ rest

/-- What is not blanked in code was there, and the walk goes on in a quoted text or in code; no comment
begins there. -/
theorem blankComments_code_cases (h : blankComments .code raw = c :: text) (hc : c ≠ ' ') :
    ∃ rest, raw = c :: rest ∧ ¬ BeginsComment raw ∧
      (IsQuote c ∧ text = blankComments (.quoted c) rest ∨
        ¬ IsQuote c ∧ text = blankComments .code rest) := by
  cases raw with
  | nil => cases h
  | cons d rest =>
    rw [blankComments] at h
    split at h
    · next hquote =>
      cases h
      refine ⟨rest, rfl, ?_, .inl ⟨hquote, rfl⟩⟩
      rintro ⟨_, heq, -⟩
      cases heq
      revert hquote
      decide
    · next hquote =>
      split at h
      · cases h
        exact absurd rfl hc
      · next hcomment =>
        cases h
        refine ⟨rest, rfl, ?_, .inr ⟨hquote, rfl⟩⟩
        rintro ⟨_, heq, hmem⟩
        cases heq
        exact hcomment ⟨rfl, rfl, by simp [hmem]⟩

/-- Blank text is left alone. -/
theorem blankComments_replicate (n : Nat) (cs : List Char) :
    blankComments .code (List.replicate n ' ' ++ cs) = List.replicate n ' ' ++ blankComments .code cs := by
  induction n with
  | zero => rfl
  | succ n ih =>
    rw [List.replicate_succ, List.cons_append, blankComments, ih]
    rfl

/-- Blanking once more changes nothing. -/
theorem blankComments_blanked :
    (∀ walk, walk ≠ .comment → blankComments walk (blankComments walk raw) = blankComments walk raw) ∧
      blankComments .code (blankComments .comment raw) = blankComments .comment raw := by
  -- by induction on the text; inside of a comment the blanked text is read as code, since nothing of
  -- the comment is left
  induction raw with
  | nil => exact ⟨fun walk _ => rfl, rfl⟩
  | cons c raw ih =>
    obtain ⟨hrest, hcomment⟩ := ih
    constructor
    · intro walk hwalk
      cases walk with
      -- behind a character of a quoted text comes more of it, or code, but no comment
      | quoted quote =>
        have hnext : (if c = '\\' then CommentWalk.escaped quote
            else if c = quote then .code else .quoted quote) ≠ .comment := by
          split
          · nofun
          · split <;> nofun
        rw [blankComments, blankComments, hrest _ hnext]
      | escaped quote => rw [blankComments, blankComments, hrest (.quoted quote) nofun]
      | comment => exact absurd rfl hwalk
      | code =>
        rw [blankComments]
        split
        · next hquote => rw [blankComments, if_pos hquote, hrest (.quoted c) nofun]
        · next hquote =>
          split
          · rw [blankComments, if_neg (by decide), if_neg (by rintro ⟨h, -⟩; cases h), hcomment]
          · next hstart =>
            -- two slashes that are left side by side were there
            have hstill : ¬(c = '/' ∧ (blankComments .code raw).head? = some '/' ∧
                (blankComments .code raw).contains '\n' = true) := by
              rintro ⟨rfl, hhead, hmem⟩
              obtain ⟨text, htext⟩ := List.head?_eq_some_iff.mp hhead
              obtain ⟨rest, rfl, -⟩ := blankComments_code_cases htext (by decide)
              rw [List.contains_iff_mem] at hmem
              exact hstart ⟨rfl, rfl, List.contains_iff_mem.mpr (mem_of_mem_blankComments hmem)⟩
            rw [blankComments, if_neg hquote, if_neg hstill, hrest .code nofun]
    · -- a line end is kept, and behind it the walk goes on in code
      have hnext : blankComments .code (blankComments (if c = '\n' then .code else .comment) raw) =
          blankComments (if c = '\n' then .code else .comment) raw := by
        split
        · exact hrest .code nofun
        · exact hcomment
      rw [blankComments, blankComments_replicate, hnext]

/-! ### The walk and the reader in step -/

/-- In front of `text`, the walk over the body is in code or in a comment, some blanks of which may be left;
`text` is what is blanked behind that. -/
def InStep (body text : List Char) : Prop :=
  ∃ passed raw n walk, body = passed ++ raw ∧ (walk = .code ∨ walk = .comment) ∧
    text = List.replicate n ' ' ++ blankComments walk raw

theorem inStep_start (body : List Char) : InStep body (blankComments .code body) :=
  ⟨[], body, 0, .code, rfl, .inl rfl, rfl⟩

namespace InStep

/-- In front of a character that is no blank, the walk is in code. -/
theorem code (h : InStep body (c :: text)) (hc : c ≠ ' ') :
    ∃ passed rest, body = passed ++ c :: rest ∧ ¬ BeginsComment (c :: rest) ∧
      (IsQuote c ∧ text = blankComments (.quoted c) rest ∨
        ¬ IsQuote c ∧ text = blankComments .code rest) := by
  obtain ⟨passed, raw, n, walk, rfl, hwalk, htext⟩ := h
  cases n with
  | succ n => exact absurd (List.cons.inj htext).1 hc
  | zero =>
    rcases hwalk with rfl | rfl
    · obtain ⟨rest, rfl, hcases⟩ := blankComments_code_cases htext.symm hc
      exact ⟨passed, rest, rfl, hcases⟩
    · cases raw with
      | nil => cases htext
      | cons d raw =>
        obtain ⟨k, hk⟩ := Nat.exists_eq_succ_of_ne_zero (Nat.ne_of_gt d.utf8Size_pos)
        rw [blankComments, hk] at htext
        exact absurd (List.cons.inj htext).1 hc

/-- Any character but a quote is passed over in step. -/
theorem tail (h : InStep body (c :: text)) (hquote : ¬ IsQuote c) : InStep body text := by
  by_cases hc : c = ' '
  · subst hc
    obtain ⟨passed, raw, n, walk, rfl, hwalk, htext⟩ := h
    cases n with
    | succ n =>
      exact ⟨passed, raw, n, walk, rfl, hwalk, (List.cons.inj htext).2⟩
    | zero =>
      cases raw with
      | nil => cases htext
      | cons d raw =>
        have hbody : passed ++ d :: raw = passed ++ [d] ++ raw := by simp
        rcases hwalk with rfl | rfl
        · rw [blankComments] at htext
          split at htext
          · next hd =>
            cases htext
            exact absurd hd hquote
          · split at htext
            · exact ⟨passed ++ [d], raw, 0, .comment, hbody, .inr rfl, (List.cons.inj htext).2⟩
            · exact ⟨passed ++ [d], raw, 0, .code, hbody, .inl rfl, (List.cons.inj htext).2⟩
        · -- the first blank of a character of the comment: the others are left
          obtain ⟨k, hk⟩ := Nat.exists_eq_succ_of_ne_zero (Nat.ne_of_gt d.utf8Size_pos)
          rw [blankComments, hk] at htext
          refine ⟨passed ++ [d], raw, k, _, hbody, ?_, (List.cons.inj htext).2⟩
          split
          · exact .inl rfl
          · exact .inr rfl
  · obtain ⟨passed, rest, rfl, -, hcases⟩ := h.code hc
    have hbody : passed ++ c :: rest = passed ++ [c] ++ rest := by simp
    rcases hcases with ⟨hq, -⟩ | ⟨-, rfl⟩
    · exact absurd hq hquote
    · exact ⟨passed ++ [c], rest, 0, .code, hbody, .inl rfl, rfl⟩

theorem drop (h : InStep body (word ++ text)) (hword : ∀ c ∈ word, ¬ IsQuote c) : InStep body text := by
  induction word with
  | nil => exact h
  | cons c word ih =>
    obtain ⟨hc, hword⟩ := List.forall_mem_cons.mp hword
    exact ih (h.tail hc) hword

end InStep

/-! ### Quoted texts -/

theorem IsQuote.ne_blank (h : IsQuote c) : c ≠ ' ' := by
  rcases h with rfl | rfl <;> decide

theorem IsQuote.ne_backslash (h : IsQuote c) : c ≠ '\\' := by
  rcases h with rfl | rfl <;> decide

/-- The walk leaves a quoted text where the reader does, and leaves it as it is. -/
theorem blankComments_quoted {inner : List Char} (hquote : IsQuote quote)
    (h : Token.takeQuoted? quote (blankComments (.quoted quote) raw) = some inner) :
    ∃ rest, raw = inner ++ quote :: rest ∧
      blankComments (.quoted quote) raw = inner ++ quote :: blankComments .code rest := by
  have hback := hquote.ne_backslash
  generalize htext : blankComments (.quoted quote) raw = text at h ⊢
  -- by induction on the reader; the walk takes an escaped pair, the closing quote and any other
  -- character at the same places
  fun_induction Token.takeQuoted? quote text generalizing raw inner with
  | case1 => cases h
  | case2 c cs ih =>
    obtain ⟨inner, hinner, rfl⟩ := Option.map_eq_some_iff.mp h
    rcases raw with - | ⟨d, - | ⟨e, raw⟩⟩
    · cases htext
    · cases htext
    · obtain ⟨rfl, htail⟩ := List.cons.inj htext
      rw [if_pos rfl, blankComments] at htail
      obtain ⟨rfl, hbehind⟩ := List.cons.inj htail
      obtain ⟨rest, rfl, rfl⟩ := ih hbehind hinner
      exact ⟨rest, rfl, rfl⟩
  | case3 cs =>
    obtain rfl := Option.some.inj h
    cases raw with
    | nil => cases htext
    | cons d raw =>
      obtain ⟨rfl, htail⟩ := List.cons.inj htext
      rw [if_neg hback, if_pos rfl] at htail
      exact ⟨raw, rfl, by rw [htail, List.nil_append]⟩
  | case4 c cs hescape hc ih =>
    obtain ⟨inner, hinner, rfl⟩ := Option.map_eq_some_iff.mp h
    have hplain := Token.ne_backslash_of_takeQuoted? hescape hinner
    cases raw with
    | nil => cases htext
    | cons d raw =>
      obtain ⟨rfl, htail⟩ := List.cons.inj htext
      rw [if_neg hplain, if_neg hc] at htail
      obtain ⟨rest, rfl, rfl⟩ := ih htail hinner
      exact ⟨rest, rfl, rfl⟩

/-! ### Tokens -/

/-- What a token is written with: a quoted text between its quotes, any other token without quotes, and a
symbol as it is spelled. -/
inductive WrittenAs : List Char → Token → Prop
  | text {quote : Char} {raw : List Char} : IsQuote quote →
      (∀ rest, Token.takeQuoted? quote (raw ++ quote :: rest) = some raw) →
      WrittenAs (quote :: raw ++ [quote]) (.text (String.ofList raw))
  | plain {word : List Char} {t : Token} : (∀ c ∈ word, ¬ IsQuote c) → (∀ raw, t ≠ .text raw) →
      (∀ s, t = .symbol s → word = s.spelling) → WrittenAs word t

namespace Token

theorem not_isQuote_of_isNumberPart (h : isNumberPart c = true) : ¬ IsQuote c := by
  rintro (rfl | rfl) <;> cases h

theorem not_isQuote_of_isNamePart (h : isNamePart c = true) : ¬ IsQuote c := by
  rintro (rfl | rfl) <;> (revert h; decide +kernel)

variable {cs rest : List Char} {length : Nat}

theorem writtenAs_of_readBracket (hquote : ¬ IsQuote c) (h : readBracket? (c :: cs) = some (t, length)) :
    WrittenAs ((c :: cs).take length) t := by
  have hplain : ∀ d ∈ [c], ¬ IsQuote d := List.forall_mem_singleton.mpr hquote
  obtain ⟨rfl, ⟨b, rfl⟩ | ⟨b, rfl⟩⟩ := readBracket?_spec h
  · refine .plain hplain ?_ ?_ <;> (rintro _ ⟨⟩)
  · refine .plain hplain ?_ ?_ <;> (rintro _ ⟨⟩)

theorem writtenAs_of_readNumber (h : readNumber? cs = some (t, length)) : WrittenAs (cs.take length) t := by
  obtain ⟨word, rest, x, rfl, rfl, -, hword, rfl⟩ := readNumber?_spec h
  rw [List.take_left]
  exact .plain (fun d hd => not_isQuote_of_isNumberPart (hword d hd)) nofun nofun

theorem writtenAs_of_readName (h : readName? cs = some (t, length)) : WrittenAs (cs.take length) t := by
  obtain ⟨word, rest, rfl, rfl, -, hword, hname⟩ := readName?_spec h
  have hplain : ∀ d ∈ word, ¬ IsQuote d := fun d hd => not_isQuote_of_isNamePart (hword d hd)
  rw [List.take_left]
  rcases hname with rfl | ⟨w, rfl⟩
  · exact .plain hplain nofun nofun
  · exact .plain hplain nofun nofun

theorem writtenAs_of_readSymbol (h : readSymbol? cs = some (t, length)) : WrittenAs (cs.take length) t := by
  obtain ⟨s, rest, rfl, rfl, rfl⟩ := readSymbol?_spec h
  have hplain : ∀ d ∈ s.spelling, ¬ IsQuote d := by
    have hall : s.spelling.all (fun d => d ≠ '\'' ∧ d ≠ '"') = true := by cases s <;> rfl
    intro d hd
    simpa [IsQuote] using List.all_eq_true.mp hall d hd
  rw [List.take_left]
  refine .plain hplain nofun ?_
  rintro _ ⟨⟩
  rfl

/-- Every token is written so. -/
theorem writtenAs_of_read (hne : word ≠ []) (h : read (word ++ rest) = .token t word.length) :
    WrittenAs word t := by
  obtain ⟨c, cs, rfl⟩ := List.exists_cons_of_ne_nil hne
  rw [List.cons_append] at h
  by_cases hquote : IsQuote c
  · rw [read_quote hquote] at h
    split at h
    · next raw hraw =>
      simp only [Reading.token.injEq, List.length_cons] at h
      obtain ⟨rfl, hlength⟩ := h
      obtain ⟨left, hleft⟩ := takeQuoted?_spec hraw
      have hsplit : cs ++ rest = raw ++ [c] ++ left := by rw [hleft, List.append_assoc]; rfl
      obtain ⟨rfl, -⟩ := List.append_inj hsplit (by simpa using hlength.symm)
      exact .text hquote (takeQuoted?_append hquote.ne_backslash hraw)
    · cases h
  · rw [read_plain hquote] at h
    split at h
    · next t' length hread =>
      cases h
      have htake : (c :: (cs ++ rest)).take (c :: cs).length = c :: cs := List.take_left
      rw [← htake]
      rcases readPlain?_eq_some_iff.mp hread with h | ⟨-, h | ⟨-, h | ⟨-, h⟩⟩⟩
      · exact writtenAs_of_readBracket hquote h
      · exact writtenAs_of_readNumber h
      · exact writtenAs_of_readName h
      · exact writtenAs_of_readSymbol h
    · cases h

end Token

/-! ### Places -/

/-- A text is cut in one way only where so many of its bytes stand in front. -/
theorem append_inj_bytes {before after before' after' : List Char}
    (h : before ++ after = before' ++ after') (hbytes : bytes before = bytes before') :
    before = before' ∧ after = after' := by
  -- the shorter of the two cuts leaves the longer one no bytes of its own
  have hempty {middle : List Char} (hmiddle : bytes middle = 0) : middle = [] := by
    by_contra hne
    have hpos := bytes_pos hne
    omega
  rcases List.append_eq_append_iff.mp h with ⟨middle, rfl, rfl⟩ | ⟨middle, rfl, rfl⟩
  · rw [bytes_append] at hbytes
    have hmiddle : middle = [] := hempty (by omega)
    rw [hmiddle]
    exact ⟨(List.append_nil _).symm, rfl⟩
  · rw [bytes_append] at hbytes
    have hmiddle : middle = [] := hempty (by omega)
    rw [hmiddle]
    exact ⟨List.append_nil _, rfl⟩

namespace InStep

/-- A quoted text is left as it was, and the walk is in code behind it. -/
theorem quoted (h : InStep body (quote :: raw ++ [quote] ++ text)) (hquote : IsQuote quote)
    (hraw : ∀ rest, Token.takeQuoted? quote (raw ++ quote :: rest) = some raw) :
    ∃ passed rest, body = passed ++ (quote :: raw ++ [quote]) ++ rest ∧
      text = blankComments .code rest := by
  have hsplit : quote :: raw ++ [quote] ++ text = quote :: (raw ++ quote :: text) := by simp
  rw [hsplit] at h
  obtain ⟨passed, inside, rfl, -, ⟨-, hinside⟩ | ⟨hplain, -⟩⟩ := h.code hquote.ne_blank
  · have htake := hraw text
    rw [hinside] at htake
    obtain ⟨rest, rfl, hrest⟩ := blankComments_quoted hquote htake
    rw [hrest] at hinside
    obtain ⟨-, hbehind⟩ := List.append_inj hinside rfl
    exact ⟨passed, rest, by simp, (List.cons.inj hbehind).2⟩
  · exact absurd hquote hplain

/-- Two slashes that are left side by side have no line break behind them. -/
theorem slashes (h : InStep body ('/' :: '/' :: text)) : '\n' ∉ text := by
  have hslash : ¬ IsQuote '/' := by
    rintro (h | h) <;> cases h
  obtain ⟨passed, inside, -, hfirst, ⟨hquote, -⟩ | ⟨-, hinside⟩⟩ := h.code (by decide)
  · exact absurd hquote hslash
  obtain ⟨rest, rfl, -, ⟨hquote, -⟩ | ⟨-, rfl⟩⟩ := blankComments_code_cases hinside.symm (by decide)
  · exact absurd hquote hslash
  · intro hbreak
    exact hfirst ⟨rest, rfl, mem_of_mem_blankComments hbreak⟩

theorem behind (h : InStep body (word ++ text)) (hword : WrittenAs word t) : InStep body text := by
  cases hword with
  | text hquote hraw =>
    obtain ⟨passed, rest, rfl, rfl⟩ := h.quoted hquote hraw
    exact ⟨_, rest, 0, .code, rfl, .inl rfl, rfl⟩
  | plain hplain => exact h.drop hplain

end InStep

/-- The walk is in step in front of every token that is read. -/
theorem Lexed.inStep (h : Lexed [] offset cs ts) (hstep : InStep body (cs ++ back)) {span : Span}
    (hmem : (t, span) ∈ ts) :
    ∃ before word rest, cs = before ++ (word ++ rest) ∧
      span = ⟨offset + bytes before, offset + bytes before + bytes word⟩ ∧
      WrittenAs word t ∧ InStep body (word ++ (rest ++ back)) := by
  induction h with
  | nil => cases hmem
  | @blank offset c cs ts hblank _ ih =>
    have hquote : ¬ IsQuote c := by
      rintro (rfl | rfl) <;> cases hblank
    obtain ⟨before, word, rest, rfl, rfl, hword, hback⟩ := ih (hstep.tail hquote) hmem
    refine ⟨c :: before, word, rest, rfl, ?_, hword, hback⟩
    rw [bytes_cons, Nat.add_assoc offset]
  | @token offset c word cs t' ts _ hread _ ih =>
    have hword := Token.writtenAs_of_read (List.cons_ne_nil c word) hread
    rw [List.append_assoc] at hstep
    rcases List.mem_cons.mp hmem with heq | hmem
    · cases heq
      exact ⟨[], c :: word, cs, rfl, rfl, hword, hstep⟩
    · obtain ⟨before, word', rest, rfl, rfl, hword', hback⟩ := ih (hstep.behind hword) hmem
      refine ⟨c :: word ++ before, word', rest, by simp, ?_, hword', hback⟩
      rw [bytes_append, Nat.add_assoc offset]

section Reading

variable {front : List Char} {span : Span}

/-- A quoted text that is read is written where it is read, before blanking and after. -/
theorem spells_text {raw : String} (hblank : blankComments .code body = front ++ back)
    (hscan : Token.scan ⟨0, front⟩ = .ok ts) (hmem : (.text raw, span) ∈ ts) :
    ∃ quote, IsQuote quote ∧ Spells body span (quote :: raw.toList ++ [quote]) ∧
      Spells (blankComments .code body) span (quote :: raw.toList ++ [quote]) := by
  have hstart := inStep_start body
  rw [hblank] at hstart
  have hlexed : Lexed [] 0 front ts := scan_eq_ok_iff.mp hscan
  obtain ⟨before, word, rest, rfl, rfl, hword, hback⟩ := hlexed.inStep hstart hmem
  cases hword with
  | plain _ htext => exact absurd rfl (htext raw)
  | @text quote raw hquote hraw =>
    rw [String.toList_ofList]
    have hblank : blankComments .code body = before ++ (quote :: raw ++ [quote]) ++ (rest ++ back) := by
      rw [hblank]
      simp only [List.append_assoc]
    have hbytes := (blanked_blankComments .code body).bytes_eq
    obtain ⟨passed, left, rfl, hleft⟩ := hback.quoted hquote hraw
    -- as much stands behind the text as before, so as much stands in front of it
    have hpassed : bytes before = bytes passed := by
      have hbehind := (blanked_blankComments .code left).bytes_eq
      rw [← hleft] at hbehind
      simp only [hblank, bytes_append] at hbytes hbehind
      omega
    refine ⟨quote, hquote, ⟨⟨passed, left, rfl, ?_⟩, rfl⟩, ⟨⟨before, rest ++ back, hblank, ?_⟩, rfl⟩⟩
    · rw [Nat.zero_add, hpassed]
    · rw [Nat.zero_add]

/-- Behind two slashes that are read side by side there is no line break. -/
theorem no_lineBreak_behind_slashes {span' : Span} (hblank : blankComments .code body = front ++ back)
    (hscan : Token.scan ⟨0, front⟩ = .ok ts) (hfirst : (.symbol .slash, span) ∈ ts)
    (hsecond : (.symbol .slash, span') ∈ ts) (hadjacent : span.stop = span'.start) :
    ∃ before after, blankComments .code body = before ++ after ∧ bytes before = span'.stop ∧
      '\n' ∉ after := by
  have hstart := inStep_start body
  rw [hblank] at hstart
  have hlexed : Lexed [] 0 front ts := scan_eq_ok_iff.mp hscan
  obtain ⟨before, word, rest, hfront, rfl, hword, hback⟩ := hlexed.inStep hstart hfirst
  obtain ⟨before', word', rest', hfront', rfl, hword', -⟩ := hlexed.inStep hstart hsecond
  obtain rfl : word = ['/'] := by
    cases hword with
    | plain _ _ hsymbol => exact hsymbol .slash rfl
  obtain rfl : word' = ['/'] := by
    cases hword' with
    | plain _ _ hsymbol => exact hsymbol .slash rfl
  have hcut : (before ++ ['/']) ++ rest = before' ++ (['/'] ++ rest') := by
    rw [← hfront', hfront, List.append_assoc]
  obtain ⟨rfl, rfl⟩ := append_inj_bytes hcut (by simpa using hadjacent)
  refine ⟨before ++ ['/'] ++ ['/'], rest' ++ back, ?_, ?_, hback.slashes⟩
  · rw [hblank, hfront']
    simp only [List.append_assoc]
  · rw [bytes_append _ ['/'], Nat.zero_add]

end Reading

/-- **Blanking and reading agree on what a quoted text is.**  Blanking turns bytes into spaces and changes
no others, and none if it is done once more.  In every part of a blanked body that can be read, a quoted
text is written where it is in the body itself, and no line break follows two slashes that stand side by
side. -/
theorem blankComments_agrees (body : List Char) :
    Blanked body (blankComments .code body) ∧
    bytes (blankComments .code body) = bytes body ∧
    blankComments .code (blankComments .code body) = blankComments .code body ∧
    ∀ front back ts, blankComments .code body = front ++ back → Token.scan ⟨0, front⟩ = .ok ts →
      (∀ raw span, (.text raw, span) ∈ ts → ∃ quote, IsQuote quote ∧
        Spells body span (quote :: raw.toList ++ [quote]) ∧
        Spells (blankComments .code body) span (quote :: raw.toList ++ [quote])) ∧
      (∀ first second, (.symbol .slash, first) ∈ ts → (.symbol .slash, second) ∈ ts →
        first.stop = second.start →
        ∃ before after, blankComments .code body = before ++ after ∧ bytes before = second.stop ∧
          '\n' ∉ after) := by
  have hblanked := blanked_blankComments .code body
  refine ⟨hblanked, hblanked.bytes_eq, blankComments_blanked.1 .code nofun, ?_⟩
  intro front back ts hblank hscan
  constructor
  · intro raw span hmem
    exact spells_text hblank hscan hmem
  · intro first second hfirst hsecond hadjacent
    exact no_lineBreak_behind_slashes hblank hscan hfirst hsecond hadjacent

/-- Slashes in a quoted text, quotes in a comment, an escaped quote, and two slashes on the last line. -/
theorem blankComments_agrees_in :
    let body := "\"a//b\" // é 'no'\n / 'it\\'s' // end".toList
    let tokens : List (Token × Span) :=
      [(.text "a//b", ⟨0, 6⟩), (.symbol .slash, ⟨19, 20⟩), (.text "it\\'s", ⟨21, 28⟩),
        (.symbol .slash, ⟨29, 30⟩), (.symbol .slash, ⟨30, 31⟩), (.name "end", ⟨32, 35⟩)]
    Token.scan ⟨0, blankComments .code body⟩ = .ok tokens ∧
    (∀ raw span, (.text raw, span) ∈ tokens → ∃ quote, IsQuote quote ∧
      Spells body span (quote :: raw.toList ++ [quote]) ∧
      Spells (blankComments .code body) span (quote :: raw.toList ++ [quote])) ∧
    ∃ before after, blankComments .code body = before ++ after ∧ bytes before = 31 ∧ '\n' ∉ after := by
  intro body tokens
  have hscan : Token.scan ⟨0, blankComments .code body⟩ = .ok tokens := rfl
  obtain ⟨-, -, -, hparts⟩ := blankComments_agrees body
  obtain ⟨htexts, hslashes⟩ := hparts _ [] tokens (List.append_nil _).symm hscan
  exact ⟨hscan, htexts, hslashes ⟨29, 30⟩ ⟨30, 31⟩ (by simp [tokens]) (by simp [tokens]) rfl⟩

end Stencil
