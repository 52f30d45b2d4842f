/-
Stencil/Proofs/FirstWord.lean

The first word of a directive.  A body that begins with no sign is told apart by the
longest run of name characters at its head, white space not counting
(`Slice.firstWord`): a word is recognised exactly if it is all of that run
(`afterWord?_eq_some_iff`), so a name that only begins with a word is none.

A body that holds statements begins with no sign but maybe a minus, and with no slash
(`head_of_readStatements`).  So nothing but its first word can make it another directive
(`classify_statements`).
-/
import Stencil.Proofs.OutputForms

namespace Stencil

open Text

variable {body s rest : Slice} {before after core word cs : List Char} {start : Nat}

/-! ### Words -/

/-- The longest run of name characters at the head of the slice. -/
def Slice.firstWord (s : Slice) : List Char := s.chars.takeWhile isNamePart

theorem Slice.firstWord_append (hword : ∀ c ∈ word, isNamePart c = true)
    (hafter : ∀ c ∈ after.head?, isNamePart c = false) :
    (⟨start, word ++ after⟩ : Slice).firstWord = word :=
  (span_append hword hafter).1

/-- A word is recognised where it is the whole first word. -/
theorem Slice.afterWord?_word (hafter : ∀ c ∈ after.head?, isNamePart c = false) :
    (⟨start, word ++ after⟩ : Slice).afterWord? word = some ⟨start + bytes word, after⟩ := by
  have hany : after.head?.any isNamePart = false := by
    cases after with
    | nil => rfl
    | cons c after => exact hafter c rfl
  rw [afterWord?, after?_append]
  simp [hany]

/-- A word is not recognised where the first word goes on behind it. -/
theorem Slice.afterWord?_eq_none (hword : ∀ c ∈ word, isNamePart c = true)
    (hne : s.firstWord ≠ word) : s.afterWord? word = none := by
  obtain ⟨start, chars⟩ := s
  rw [afterWord?]
  by_cases hlead : word <+: chars
  · obtain ⟨after, rfl⟩ := hlead
    rw [after?_append]
    cases after with
    | nil => exact absurd (firstWord_append hword fun c hc => by cases hc) hne
    | cons c after =>
      by_cases hc : isNamePart c = true
      · simp [hc]
      · refine absurd (firstWord_append hword ?_) hne
        rintro _ ⟨⟩
        simpa using hc
  · rw [after?_eq_none hlead]

/-- Only white space is trimmed off, and all of it is. -/
theorem trimBlank_padded (hbefore : AllBlank before) (hafter : AllBlank after)
    (hfirst : ∀ c ∈ core.head?, isBlank c = false)
    (hlast : ∀ c ∈ core.getLast?, isBlank c = false) :
    trimBlank (before ++ (core ++ after)) = core := by
  have hback : dropTrailing isBlank (core ++ after) = core := by
    induction after using List.reverseRecOn with
    | nil => rw [List.append_nil, dropTrailing_eq_self hlast]
    | append_singleton after c ih =>
      obtain ⟨hafter, hc⟩ := List.forall_mem_append.mp hafter
      rw [← List.append_assoc, dropTrailing_concat, if_pos (hc c List.mem_cons_self)]
      exact ih hafter
  rw [trimBlank, trimBoth]
  cases core with
  | nil =>
    have hall : (before ++ ([] ++ after)).dropWhile isBlank = [] :=
      List.dropWhile_eq_nil_iff.mpr (hbefore.append hafter)
    rw [hall]
    rfl
  | cons c core =>
    have hhead : ∀ d ∈ (c :: core ++ after).head?, isBlank d = false := hfirst
    rw [(span_append hbefore hhead).2, hback]

theorem Slice.trimStart_padded (hbefore : AllBlank before)
    (hafter : ∀ c ∈ after.head?, isBlank c = false) :
    (⟨start, before ++ after⟩ : Slice).trimStart = ⟨start + bytes before, after⟩ := by
  obtain ⟨htake, hdrop⟩ := span_append hbefore hafter
  rw [trimStart, htake, hdrop]

/-- The slice without the white space around a text that has none at its ends. -/
theorem Slice.trim_padded {c : Char} (hbefore : AllBlank before) (hafter : AllBlank after)
    (hfirst : isBlank c = false) (hlast : ∀ d ∈ (c :: core).getLast?, isBlank d = false) :
    (⟨start, before ++ (c :: core ++ after)⟩ : Slice).trim = ⟨start + bytes before, c :: core⟩ := by
  have hhead : ∀ d ∈ (c :: core ++ after).head?, isBlank d = false := by
    rintro _ ⟨⟩
    exact hfirst
  have htrim : trimBlank (before ++ (c :: core ++ after)) = c :: core :=
    trimBlank_padded hbefore hafter hhead hlast
  rw [trimBlank, trimBoth, (span_append hbefore hhead).2] at htrim
  rw [trim, trimStart_padded hbefore hhead, trimEnd, htrim]

/-! ### What no sign and no closing word begins with -/

/-- The first characters of the signs. -/
def signHeads : List Char := [':', '=', '-']

theorem classifyOutput?_eq_none (h : ∀ c ∈ body.chars.head?, c ∉ signHeads) :
    classifyOutput? body = none := by
  have hsigns : ∀ entry ∈ outputSigns,
      (entry.1.toList.head?.any fun c => signHeads.contains c) = true := List.all_eq_true.mp rfl
  rw [classifyOutput?, List.findSome?_eq_none_iff]
  intro entry hentry
  obtain ⟨sign, kind⟩ := entry
  have hsign := hsigns _ hentry
  obtain ⟨start, chars⟩ := body
  have hnone : ¬ sign.toList <+: chars := by
    rintro ⟨tail, rfl⟩
    -- a sign is not empty, and its first character is the first one of the body
    cases hcs : sign.toList with
    | nil =>
      simp only [hcs] at hsign
      cases hsign
    | cons c cs =>
      simp only [hcs] at hsign h
      exact h c rfl (by simpa using hsign)
  show Option.map _ (Slice.after? sign.toList _) = none
  rw [after?_eq_none hnone, Option.map_none]

/-- The directives that consist of one word. -/
def loneWords : List (List Char) :=
  ["foreachelse".toList, "foreachbreak".toList, "/foreach".toList, "else".toList, "/if".toList,
   "/define".toList]

theorem ofWord?_eq_none (h : cs ∉ loneWords) : Directive.ofWord? cs = none := by
  rcases hword : Directive.ofWord? cs with - | d
  · rfl
  · obtain ⟨⟨word, taken⟩, hmem, htaken⟩ := List.exists_of_findSome?_eq_some hword
    have hcs : cs = word.spelling.toList := by
      by_contra hne
      simp [hne] at htaken
    have hlone : word.spelling.toList ∈ loneWords := by
      simp only [List.mem_cons, Prod.mk.injEq, List.not_mem_nil, or_false] at hmem
      rcases hmem with ⟨rfl, -⟩ | ⟨rfl, -⟩ | ⟨rfl, -⟩ | ⟨rfl, -⟩ | ⟨rfl, -⟩ | ⟨rfl, -⟩ <;> decide
    exact absurd (hcs ▸ hlone) h

/-! ### Statements -/

/-- The words by which a directive is told from statements. -/
def directiveWords : List (List Char) :=
  ["if".toList, "elseif".toList, "else".toList, "foreach".toList, "foreachelse".toList,
   "foreachbreak".toList, "define".toList, "run".toList]

/-- A directive of one word is told by its first word, unless it closes a block. -/
theorem word_or_slash_of_mem_loneWords (h : cs ∈ loneWords) :
    cs.takeWhile isNamePart ∈ directiveWords ∨ cs.head? = some '/' := by
  have hall : loneWords.all (fun cs =>
      directiveWords.contains (cs.takeWhile isNamePart) || cs.head? == some '/') = true := by
    decide +kernel
  simpa using List.all_eq_true.mp hall cs h

theorem isNamePart_of_mem_directiveWords (h : word ∈ directiveWords) :
    ∀ c ∈ word, isNamePart c = true := by
  have hall : ∀ word ∈ directiveWords, word.all isNamePart = true := by decide +kernel
  exact List.all_eq_true.mp (hall word h)

/-- Where neither a sign nor a word stands, there are statements. -/
theorem classify_eq_statements (hsign : classifyOutput? body = none)
    (hfirst : body.trim.firstWord ∉ directiveWords) (hlone : body.trim.chars ∉ loneWords) :
    classify body = readStatements body >>= fun ss => .ok (.statements ss) := by
  have hword {word : List Char} (hmem : word ∈ directiveWords) : body.trim.afterWord? word = none :=
    Slice.afterWord?_eq_none (isNamePart_of_mem_directiveWords hmem) fun heq => hfirst (heq ▸ hmem)
  have hforEach : body.trim.afterWord? "foreach".toList = none := hword (by decide)
  have hif : body.trim.afterWord? "if".toList = none := hword (by decide)
  have helseIf : body.trim.afterWord? "elseif".toList = none := hword (by decide)
  have helse : body.trim.afterWord? "else".toList = none := hword (by decide)
  have hdefine : body.trim.afterWord? "define".toList = none := hword (by decide)
  have hrun : body.trim.afterWord? "run".toList = none := hword (by decide)
  unfold classify afterElseIf?
  simp only [hsign, hforEach, hif, helseIf, helse, hdefine, hrun, ofWord?_eq_none hlone]
  rfl

/-- The characters with which no statement begins, though tokens do. -/
def unstarting : List Char := [':', '=', '/']

/-- They are neither white space nor the beginning of a number or a name. -/
theorem plain_of_mem_unstarting {c : Char} (h : c ∈ unstarting) :
    isBlank c = false ∧ isDecimalDigit c = false ∧ isNameStart c = false := by
  have hall : unstarting.all (fun c => !(isBlank c || isDecimalDigit c || isNameStart c)) = true := by
    decide +kernel
  simpa [and_assoc] using List.all_eq_true.mp hall c h

/-- Only symbols begin with these characters. -/
theorem symbol_of_read {c : Char} {t : Token} {length : Nat} (hc : c ∈ unstarting)
    (h : Token.read (c :: cs) = .token t length) :
    ∃ s : Symbol, t = .symbol s ∧ s.spelling.head? = some c := by
  obtain ⟨-, hdigit, hstart⟩ := plain_of_mem_unstarting hc
  have hne {d : Char} (hd : d ∉ unstarting) : c ≠ d := by
    rintro rfl
    exact hd hc
  have hquote : ¬(c = '\'' ∨ c = '"') := not_or.mpr ⟨hne (by decide), hne (by decide)⟩
  have hbracket : Token.readBracket? (c :: cs) = none := by
    apply readBracket?_eq_none
    intro b
    cases b <;> exact ⟨hne (by decide), hne (by decide)⟩
  have hnumber : Token.readNumber? (c :: cs) = none :=
    readNumber?_eq_none hdigit (hne (by decide)) cs
  have hname : Token.readName? (c :: cs) = none := Token.readName?_eq_none_iff.mpr hstart
  rw [Token.read_plain hquote] at h
  split at h
  · next t' length' hread =>
    cases h
    rcases Token.readPlain?_eq_some_iff.mp hread with h | ⟨-, h | ⟨-, h | ⟨-, h⟩⟩⟩
    · cases hbracket.symm.trans h
    · cases hnumber.symm.trans h
    · cases hname.symm.trans h
    · obtain ⟨s, tail, htail, -, rfl⟩ := Token.readSymbol?_spec h
      refine ⟨s, rfl, ?_⟩
      have hhead := congrArg List.head? htail.symm
      rwa [List.head?_append_of_ne_nil _ (by cases s <;> exact List.cons_ne_nil _ _)] at hhead
  · cases h

/-- The first token of a text stands where the text begins. -/
theorem Lexed.read_head {behind : List Char} {c : Char} {ts : List (Token × Span)}
    (h : Lexed behind start (before ++ c :: cs) ts) (hbefore : AllBlank before)
    (hc : isBlank c = false) :
    ∃ t span us length, ts = (t, span) :: us ∧ Token.read (c :: cs ++ behind) = .token t length := by
  induction before generalizing start with
  | nil =>
    generalize htext : [] ++ c :: cs = text at h
    cases h with
    | nil => cases htext
    | blank hblank =>
      cases htext
      rw [hc] at hblank
      cases hblank
    | token _ hread =>
      rw [← List.append_assoc, ← htext] at hread
      exact ⟨_, _, _, _, rfl, hread⟩
  | cons b before ih =>
    have hb := hbefore b List.mem_cons_self
    generalize htext : b :: before ++ c :: cs = text at h
    cases h with
    | nil => cases htext
    | blank _ h =>
      cases htext
      exact ih h hbefore.tail
    | token hblank =>
      obtain ⟨rfl, -⟩ := List.cons.inj htext
      rw [hb] at hblank
      cases hblank

/-- No statement begins with a colon, an equals sign or a slash. -/
theorem head_of_readStatements {ss : List Statement} {c : Char}
    (h : readStatements ⟨start, before ++ c :: cs⟩ = .ok ss) (hbefore : AllBlank before) :
    c ∉ unstarting := by
  intro hc
  rcases hscan : Token.scan ⟨start, before ++ c :: cs⟩ with span | ts
  · simp [readStatements, hscan, bind, Except.bind] at h
  obtain ⟨t, span, us, length, rfl, hread⟩ :=
    (scan_eq_ok_iff.mp hscan).read_head hbefore (plain_of_mem_unstarting hc).1
  rw [List.append_nil] at hread
  obtain ⟨symbol, rfl, hhead⟩ := symbol_of_read hc hread
  have hstep : Progress.start.step (.symbol symbol) span = none := by
    simp only [unstarting, List.mem_cons, List.not_mem_nil, or_false] at hc
    rcases hc with rfl | rfl | rfl <;> cases symbol <;> cases hhead <;> rfl
  simp [readStatements, hscan, bind, Except.bind, Progress.readAll, hstep] at h

/-- What is read as statements is a directive of statements, unless its first word is one of a directive or
it begins with a minus. -/
theorem classify_statements {ss : List Statement} (h : readStatements body = .ok ss)
    (hfirst : body.trim.firstWord ∉ directiveWords) (hminus : body.chars.head? ≠ some '-') :
    classify body = .ok (.statements ss) := by
  obtain ⟨start, chars⟩ := body
  -- the signs of the output forms begin no statement, but for the minus
  have hsign : classifyOutput? ⟨start, chars⟩ = none := by
    apply classifyOutput?_eq_none
    intro c hc hmem
    obtain ⟨cs, rfl⟩ := List.head?_eq_some_iff.mp hc
    have hhead : c ∉ unstarting := by
      have hread : readStatements ⟨start, [] ++ c :: cs⟩ = .ok ss := h
      exact head_of_readStatements hread allBlank_nil
    simp only [signHeads, List.mem_cons, List.not_mem_nil, or_false] at hmem
    rcases hmem with rfl | rfl | rfl
    · exact hhead (by decide)
    · exact hhead (by decide)
    · exact hminus rfl
  -- a directive that is one word alone has that as its first word, or begins with a slash
  have hlone : (⟨start, chars⟩ : Slice).trim.chars ∉ loneWords := by
    intro hmem
    obtain ⟨tail, htail, -⟩ := dropTrailing_spec isBlank (chars.dropWhile isBlank)
    rcases word_or_slash_of_mem_loneWords hmem with hword | hslash
    · exact hfirst hword
    · obtain ⟨cs, hcs⟩ := List.head?_eq_some_iff.mp hslash
      have htrim : dropTrailing isBlank (chars.dropWhile isBlank) = '/' :: cs := hcs
      have hchars : chars = chars.takeWhile isBlank ++ '/' :: (cs ++ tail) := by
        rw [← List.cons_append, ← htrim, ← htail, List.takeWhile_append_dropWhile]
      rw [hchars] at h
      exact head_of_readStatements h (fun c hc => List.mem_takeWhile_imp hc) (by decide)
  rw [classify_eq_statements hsign hfirst hlone, h]
  rfl

end Stencil
