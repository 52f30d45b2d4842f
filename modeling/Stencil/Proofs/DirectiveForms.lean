/-
Stencil/Proofs/DirectiveForms.lean

Directives as they are written.  `Written offset text d`: the text, which begins at the
offset, writes out the directive `d`: its word, and in brackets its code, with white space
between the parts wherever it may stand.  Nothing is said there of how a directive is
taken apart.

The main result, `classify_written`: what is written is read back, names, code and places,
and no statements are taken for a directive.
-/
import Stencil.Proofs.FirstWord

namespace Stencil

open Text

variable {body rest : Slice} {e : Expression} {es : List Expression} {offset start : Nat}
  {before after behind gap word more name letters text cs : List Char}

/-! ### Written code, names and lists -/

/-- The code of the expression, with white space around it. -/
inductive WritesCode (offset : Nat) : List Char → Expression → Prop
  | intro {front code back : List Char} {e : Expression} : AllBlank front → AllBlank back →
      IsCodeOf code e →
      WritesCode offset (front ++ (code ++ back)) (e.moved (offset + bytes front))

/-- The name, with white space around it. -/
inductive WritesName (offset : Nat) : List Char → String → Prop
  | intro {front letters back : List Char} : AllBlank front → AllBlank back →
      isName letters = true → WritesName offset (front ++ (letters ++ back)) (String.ofList letters)

/-- Items with commas between them; one may stand behind the last item as well. -/
inductive WritesList {α : Type} (writes : Nat → List Char → α → Prop) :
    Nat → List Char → List α → Prop
  | none {offset : Nat} {gap : List Char} : AllBlank gap → WritesList writes offset gap []
  | last {offset : Nat} {text : List Char} {a : α} : writes offset text a →
      WritesList writes offset text [a]
  | next {offset : Nat} {text rest : List Char} {a : α} {as : List α} : writes offset text a →
      WritesList writes (offset + bytes text + 1) rest as →
      WritesList writes offset (text ++ ',' :: rest) (a :: as)

/-! ### Written directives -/

/-- A text in round brackets behind a heading. -/
def enclosed (heading text : List Char) : List Char := heading ++ '(' :: (text ++ [')'])

/-- The text, which begins at the offset, writes out the directive. -/
inductive Written (offset : Nat) : List Char → Directive → Prop
  | ifThen {gap text : List Char} {e : Expression} : AllBlank gap →
      WritesCode (offset + bytes ("if".toList ++ gap) + 1) text e →
      Written offset (enclosed ("if".toList ++ gap) text) (.ifThen e)
  | elseIf {gap text : List Char} {e : Expression} : AllBlank gap →
      WritesCode (offset + bytes ("elseif".toList ++ gap) + 1) text e →
      Written offset (enclosed ("elseif".toList ++ gap) text) (.elseIf e)
  /-- In two words. -/
  | elseThenIf {blanks gap text : List Char} {e : Expression} : AllBlank blanks → blanks ≠ [] →
      AllBlank gap →
      WritesCode (offset + bytes ("else".toList ++ (blanks ++ ("if".toList ++ gap))) + 1) text e →
      Written offset (enclosed ("else".toList ++ (blanks ++ ("if".toList ++ gap))) text) (.elseIf e)
  /-- White space stands on both sides of `in`. -/
  | forEach {gap front item blanks text : List Char} {e : Expression} : AllBlank gap →
      AllBlank front → isName item = true → AllBlank blanks → blanks ≠ [] →
      text.head?.any isBlank = true →
      WritesCode (offset + bytes ("foreach".toList ++ gap) + 1 +
        bytes (front ++ (item ++ (blanks ++ "in".toList)))) text e →
      Written offset
        (enclosed ("foreach".toList ++ gap) (front ++ (item ++ (blanks ++ ("in".toList ++ text)))))
        (.forEach (String.ofList item) e)
  | define {blanks name gap text : List Char} {parameters : List String} : AllBlank blanks →
      blanks ≠ [] → isName name = true → AllBlank gap →
      WritesList WritesName (offset + bytes ("define".toList ++ (blanks ++ (name ++ gap))) + 1) text
        parameters →
      Written offset (enclosed ("define".toList ++ (blanks ++ (name ++ gap))) text)
        (.define (String.ofList name) parameters)
  | run {blanks name gap text : List Char} {arguments : List Expression} : AllBlank blanks →
      blanks ≠ [] → isName name = true → AllBlank gap →
      WritesList WritesCode (offset + bytes ("run".toList ++ (blanks ++ (name ++ gap))) + 1) text
        arguments →
      Written offset (enclosed ("run".toList ++ (blanks ++ (name ++ gap))) text)
        (.run (String.ofList name) arguments)

/-! ### Reading code -/

/-- Written code is an operand, whatever lets its tokens end behind it. -/
theorem WritesCode.lexed (h : WritesCode offset text e) (hbehind : Severs behind) :
    ∃ ts x, Lexed behind offset text ts ∧ Makes (.operand 0 x) ts ∧ x.value = e := by
  obtain ⟨hfront, hback, hcode⟩ := h
  obtain ⟨ts, x, hlexed, hmakes, hvalue⟩ := hcode.lexed _
  exact ⟨ts, x, hlexed.padded hfront hback hbehind, hmakes, hvalue⟩

theorem WritesCode.read (h : WritesCode offset text e) : readExpression ⟨offset, text⟩ = .ok e := by
  obtain ⟨ts, x, hlexed, hmakes, rfl⟩ := h.lexed severs_nil
  exact readExpression_of_makes hlexed.scan hmakes

/-- Brackets around code leave no trace in the expression. -/
theorem WritesCode.read_enclosed (h : WritesCode (offset + bytes gap + 1) text e)
    (hgap : AllBlank gap) : readExpression ⟨offset, enclosed gap text⟩ = .ok e := by
  have hcloser : Severs [')'] := severs_cons (by decide +kernel) []
  obtain ⟨ts, x, hlexed, hmakes, rfl⟩ := h.lexed hcloser
  obtain ⟨first, last, -, hbracketed⟩ := Lexed.bracketed .round [] hlexed
  have hall : Lexed [] offset (enclosed gap text) _ := (hgap.lexed _ offset).append hbracketed
  have hgroup : Makes (.operand 0 ⟨x.value, ⟨first.start, last.stop⟩⟩) _ := .group hmakes
  have hread : readExpression ⟨offset, enclosed gap text⟩ = .ok _ :=
    readExpression_of_makes hall.scan hgroup
  exact hread

/-- Written items are the items of a list, behind any that stand before them. -/
theorem WritesList.lexed (h : WritesList WritesCode offset text es) (hbehind : Severs behind) :
    ∃ ts, Lexed behind offset text ts ∧
      ∀ {front us}, Makes (.leadingItems front) us → Makes (.items (front ++ es)) (us ++ ts) := by
  induction h with
  | none hgap =>
    refine ⟨[], hgap.lexed _ _, fun hfront => ?_⟩
    rw [List.append_nil, List.append_nil]
    exact .itemsEnd hfront
  | last h =>
    obtain ⟨ts, x, hlexed, hmakes, rfl⟩ := h.lexed hbehind
    exact ⟨ts, hlexed, fun hfront => .lastItem hfront hmakes⟩
  | @next offset text rest e es h _ ih =>
    have hends : Severs (',' :: (rest ++ behind)) := severs_cons (by decide +kernel) _
    obtain ⟨ts, x, hlexed, hmakes, rfl⟩ := h.lexed hends
    obtain ⟨us, hrest, hitems⟩ := ih
    obtain ⟨comma, hcomma⟩ : ∃ comma, Lexed (rest ++ behind) (offset + bytes text) [',']
      [(.symbol .comma, comma)] := ⟨_, .sign (fun cs => rfl) rfl _ _⟩
    have hbehind : Lexed behind (offset + bytes text) (',' :: rest) _ := hcomma.append hrest
    refine ⟨_, hlexed.append hbehind, fun {front us} hfront => ?_⟩
    have hleading : Makes (.leadingItems (front ++ [x.value])) (us ++ (ts ++ [(.symbol .comma, comma)])) :=
      .leadingItem hfront hmakes
    simpa using hitems hleading

/-- There is no code without a token. -/
theorem WritesCode.not_allBlank (h : WritesCode offset text e) : ¬ AllBlank text := by
  intro hblank
  obtain ⟨ts, x, hlexed, hmakes, -⟩ := h.lexed severs_nil
  have hnone : Token.scan ⟨offset, text⟩ = .ok [] := (hblank.lexed [] offset).scan
  cases hnone.symm.trans hlexed.scan
  exact hmakes.ne_nil rfl

/-- Written items are read as arguments. -/
theorem WritesList.readArguments (h : WritesList WritesCode offset text es) (hoffset : 0 < offset) :
    readArguments ⟨offset, text⟩ = .ok es := by
  obtain ⟨offset, rfl⟩ := Nat.exists_eq_succ_of_ne_zero (Nat.ne_of_gt hoffset)
  rw [Stencil.readArguments]
  split
  · next hblank =>
    replace hblank : AllBlank text := List.all_eq_true.mp hblank
    cases h with
    | none => rfl
    | last h => exact absurd hblank h.not_allBlank
    | next => cases hblank ',' (by simp)
  · have hcloser : Severs [']'] := severs_cons (by decide +kernel) []
    obtain ⟨ts, hlexed, hitems⟩ := h.lexed hcloser
    obtain ⟨first, last, -, hbracketed⟩ := Lexed.bracketed .square [] hlexed
    have harray : Makes (.operand 0 (.upTo first.start last fun span => .array span es)) _ :=
      .array (hitems .noItems)
    have hread : readExpression ⟨offset, '[' :: (text ++ [']'])⟩ = _ :=
      readExpression_of_makes hbracketed.scan harray
    show (readExpression ⟨offset, '[' :: (text ++ [']'])⟩ >>= _) = _
    rw [hread]
    rfl

/-! ### Reading names -/

/-- A name goes up to the first character that is no part of it. -/
theorem splitName?_name (hname : isName name = true) (hafter : ∀ c ∈ after.head?, isNamePart c = false) :
    (⟨offset, name ++ after⟩ : Slice).splitName? =
      some (String.ofList name, ⟨offset + bytes name, after⟩) := by
  obtain ⟨c, letters, rfl, hstart, hletters⟩ := exists_of_isName hname
  obtain ⟨htake, hdrop⟩ := span_append hletters hafter
  rw [Slice.splitName?, List.cons_append, splitName?, if_pos hstart, htake, hdrop]

/-- The parts of a text between commas, without the white space around them and without the empty ones. -/
def parameterNames (text : List Char) : List (List Char) :=
  ((splitAll [','] text).map trimBlank).filter fun part => !part.isEmpty

theorem isBlank_of_isNamePart {c : Char} (h : isNamePart c = true) : isBlank c = false := by
  by_contra hblank
  rw [isNamePart_of_isBlank (by simpa using hblank)] at h
  cases h

theorem ne_nil_of_isName (h : isName name = true) : name ≠ [] := by
  rintro rfl
  cases h

theorem isNamePart_of_isName (h : isName name = true) : ∀ c ∈ name, isNamePart c = true := by
  obtain ⟨c, letters, rfl, hstart, hletters⟩ := exists_of_isName h
  refine List.forall_mem_cons.mpr ⟨?_, hletters⟩
  simp only [isNameStart, Bool.or_eq_true] at hstart
  simp only [isNamePart, Bool.or_eq_true]
  tauto

/-- White space around a name is trimmed off, and no comma is part of it. -/
theorem WritesName.trimBlank {parameter : String} (h : WritesName offset text parameter) :
    ',' ∉ text ∧ isName (trimBlank text) = true ∧ String.ofList (trimBlank text) = parameter := by
  obtain ⟨hfront, hback, hname⟩ := h
  have hparts := isNamePart_of_isName hname
  have hplain := fun c hc => isBlank_of_isNamePart (hparts c hc)
  rw [trimBlank_padded hfront hback (fun c hc => hplain c (List.mem_of_head? hc))
    fun c hc => hplain c (List.mem_of_getLast? hc)]
  refine ⟨fun hcomma => ?_, hname, rfl⟩
  rcases List.mem_append.mp hcomma with hmem | hmem
  · cases hfront _ hmem
  · rcases List.mem_append.mp hmem with hmem | hmem
    · have hcomma : isNamePart ',' = false := by decide +kernel
      rw [hparts _ hmem] at hcomma
      cases hcomma
    · cases hback _ hmem

/-- A list of names is read as parameters. -/
theorem WritesList.parameterNames {parameters : List String}
    (h : WritesList WritesName offset text parameters) :
    (parameterNames text).all isName = true ∧ (parameterNames text).map String.ofList = parameters := by
  -- a list is cut at its commas, and no name holds one
  induction h with
  | @none _ gap hgap =>
    have hcomma : ',' ∉ gap := fun hmem => by cases hgap _ hmem
    have hblank : Text.trimBlank gap = [] := by
      rw [Text.trimBlank, trimBoth, List.dropWhile_eq_nil_iff.mpr hgap]
      rfl
    have hnames : Stencil.parameterNames gap = [] := by
      rw [Stencil.parameterNames, splitAll_eq (List.cons_ne_nil _ _), splitFirst?_mark_eq_none hcomma]
      simp [hblank]
    rw [hnames]
    exact ⟨rfl, rfl⟩
  | @last _ text _ h =>
    obtain ⟨hcomma, hname, rfl⟩ := h.trimBlank
    have hnames : Stencil.parameterNames text = [Text.trimBlank text] := by
      rw [Stencil.parameterNames, splitAll_eq (List.cons_ne_nil _ _), splitFirst?_mark_eq_none hcomma]
      simp [ne_nil_of_isName hname]
    rw [hnames]
    exact ⟨by simp [hname], rfl⟩
  | @next _ text rest _ _ h _ ih =>
    obtain ⟨hcomma, hname, rfl⟩ := h.trimBlank
    have hnames : Stencil.parameterNames (text ++ ',' :: rest) =
        Text.trimBlank text :: Stencil.parameterNames rest := by
      rw [Stencil.parameterNames, splitAll_eq (List.cons_ne_nil _ _), splitFirst?_mark hcomma]
      simp [ne_nil_of_isName hname, Stencil.parameterNames]
    rw [hnames, List.all_cons, List.map_cons, ih.2, hname, ih.1]
    exact ⟨rfl, rfl⟩

theorem WritesList.readParameters? {parameters : List String}
    (h : WritesList WritesName offset text parameters) :
    readParameters? ⟨offset, text⟩ = some parameters := by
  obtain ⟨hnames, rfl⟩ := h.parameterNames
  exact if_pos hnames

/-! ### Taking directives apart -/

theorem before?_append (offset : Nat) (cs : List Char) (last : Char) :
    (⟨offset, cs ++ [last]⟩ : Slice).before? last = some ⟨offset, cs⟩ := by
  simp [Slice.before?]

theorem enclosed_append (heading more text : List Char) :
    enclosed (heading ++ more) text = heading ++ enclosed more text := by
  simp [enclosed]

/-- A name ends in front of white space or a bracket. -/
theorem head_enclosed (hmore : ∀ c ∈ more.head?, isBlank c = true) :
    ∀ c ∈ (enclosed more text).head?, isNamePart c = false := by
  cases more with
  | nil =>
    rintro _ ⟨⟩
    decide +kernel
  | cons c more =>
    rintro _ ⟨⟩
    exact isNamePart_of_isBlank (hmore c rfl)

theorem getLast_enclosed (heading text : List Char) :
    ∀ c ∈ (enclosed heading text).getLast?, isBlank c = false := by
  intro c hc
  have hlast : (enclosed heading text).getLast? = some ')' := by
    rw [enclosed, ← List.cons_append, ← List.append_assoc, List.getLast?_concat]
  rw [hlast] at hc
  cases hc
  rfl

theorem head_name (hname : isName name = true) (cs : List Char) :
    ∀ c ∈ (name ++ cs).head?, isBlank c = false := by
  rw [List.head?_append_of_ne_nil _ (ne_nil_of_isName hname)]
  intro c hc
  exact isBlank_of_isNamePart (isNamePart_of_isName hname c (List.mem_of_head? hc))

theorem AllBlank.head (h : AllBlank gap) : ∀ c ∈ gap.head?, isBlank c = true :=
  fun c hc => h c (List.mem_of_head? hc)

/-- What stands between the brackets behind a name. -/
theorem splitCall?_enclosed (hbefore : AllBlank before) (hname : isName name = true)
    (hgap : AllBlank gap) :
    splitCall? ⟨offset, enclosed (before ++ (name ++ gap)) text⟩ =
      some (String.ofList name, ⟨offset + bytes (before ++ (name ++ gap)) + 1, text⟩) := by
  have hopener (offset : Nat) : (⟨offset, enclosed gap text⟩ : Slice).trimStart =
      ⟨offset + bytes gap, '(' :: (text ++ [')'])⟩ :=
    Slice.trimStart_padded hgap (by rintro _ ⟨⟩; rfl)
  have hopened (offset : Nat) : (⟨offset, '(' :: (text ++ [')'])⟩ : Slice).after? ['('] =
      some ⟨offset + 1, text ++ [')']⟩ := after?_append offset ['('] (text ++ [')'])
  have hcloser (offset : Nat) : (⟨offset, text ++ [')']⟩ : Slice).trimEnd = ⟨offset, text ++ [')']⟩ := by
    rw [Slice.trimEnd, dropTrailing_concat]
    rfl
  rw [splitCall?, enclosed_append, enclosed_append, Slice.trimStart_padded hbefore (head_name hname _),
    splitName?_name hname (head_enclosed hgap.head)]
  simp only [Option.bind_eq_bind, Option.bind_some, hopener, hopened, hcloser, before?_append,
    bytes_append, Nat.add_assoc]

/-- What stands between the brackets of a loop. -/
theorem splitLoop?_enclosed {front item blanks : List Char} (hgap : AllBlank gap)
    (hfront : AllBlank front) (hitem : isName item = true) (hblanks : AllBlank blanks)
    (hne : blanks ≠ []) (htext : text.head?.any isBlank = true) :
    splitLoop? ⟨offset, enclosed gap (front ++ (item ++ (blanks ++ ("in".toList ++ text))))⟩ =
      some (String.ofList item,
        ⟨offset + bytes gap + 1 + bytes (front ++ (item ++ (blanks ++ "in".toList))), text⟩) := by
  generalize hinner : front ++ (item ++ (blanks ++ ("in".toList ++ text))) = inner
  have htrim : (⟨offset, enclosed gap inner⟩ : Slice).trim =
      ⟨offset + bytes gap, '(' :: (inner ++ [')'])⟩ := by
    have hpadded : (⟨offset, gap ++ ('(' :: (inner ++ [')']) ++ [])⟩ : Slice).trim = _ :=
      Slice.trim_padded hgap allBlank_nil rfl (getLast_enclosed [] inner)
    rwa [List.append_nil] at hpadded
  have hopened (offset : Nat) : (⟨offset, '(' :: (inner ++ [')'])⟩ : Slice).after? ['('] =
      some ⟨offset + 1, inner ++ [')']⟩ := after?_append offset ['('] (inner ++ [')'])
  obtain ⟨b, blanks, rfl⟩ := List.exists_cons_of_ne_nil hne
  have hb : isBlank b = true := hblanks b List.mem_cons_self
  -- neither the name of the item nor the word goes on in what is behind it
  have hblank : ∀ c ∈ (b :: blanks ++ ("in".toList ++ text)).head?, isNamePart c = false := by
    rintro _ ⟨⟩
    exact isNamePart_of_isBlank hb
  have hin : ∀ c ∈ ("in".toList ++ text).head?, isBlank c = false := by
    rintro _ ⟨⟩
    rfl
  have hends : ∀ c ∈ text.head?, isNamePart c = false := by
    intro c hc
    rw [Option.mem_def.mp hc] at htext
    exact isNamePart_of_isBlank htext
  have hword (offset : Nat) : (⟨offset, "in".toList ++ text⟩ : Slice).afterWord? ['i', 'n'] =
      some ⟨offset + bytes "in".toList, text⟩ := Slice.afterWord?_word hends
  -- the brackets are taken off first, and then what is between them from left to right
  rw [splitLoop?, htrim, hopened]
  simp only [Option.bind_eq_bind, Option.bind_some, before?_append]
  rw [← hinner, Slice.trimStart_padded hfront (head_name hitem _), splitName?_name hitem hblank]
  simp only [Option.bind_some, List.cons_append, List.head?_cons, Option.any_some, hb]
  rw [← List.cons_append, Slice.trimStart_padded hblanks hin]
  simp only [hword]
  simp [htext, Nat.add_assoc]

/-- The body begins with the word, white space not counting, and `rest` stands behind it. -/
structure BeginsWith (body : Slice) (word : List Char) (rest : Slice) : Prop where
  unsigned : classifyOutput? body = none
  longer : body.trim.chars ∉ loneWords
  first : body.trim.firstWord = word
  behind : body.trim.afterWord? word = some rest

theorem beginsWith_enclosed (hbefore : AllBlank before) (hafter : AllBlank after)
    (hword : word ∈ directiveWords) (hmore : ∀ c ∈ more.head?, isBlank c = true) :
    BeginsWith ⟨start, before ++ (enclosed (word ++ more) text ++ after)⟩ word
      ⟨start + bytes before + bytes word, enclosed more text⟩ := by
  have hparts := isNamePart_of_mem_directiveWords hword
  have hrest : ∀ c ∈ (enclosed more text).head?, isNamePart c = false := head_enclosed hmore
  have hbracket : '(' ∈ enclosed (word ++ more) text := by simp [enclosed]
  have hlone : ∀ cs ∈ loneWords, '(' ∉ cs := by decide
  have hne : ∀ word ∈ directiveWords, word ≠ [] := by decide
  obtain ⟨c, letters, rfl⟩ := List.exists_cons_of_ne_nil (hne word hword)
  have hc := hparts c List.mem_cons_self
  have hlast : ∀ d ∈ (enclosed (c :: letters ++ more) text).getLast?, isBlank d = false :=
    getLast_enclosed _ _
  have htrim : (⟨start, before ++ (enclosed (c :: letters ++ more) text ++ after)⟩ : Slice).trim =
      ⟨start + bytes before, enclosed (c :: letters ++ more) text⟩ :=
    Slice.trim_padded hbefore hafter (isBlank_of_isNamePart hc) hlast
  refine ⟨?_, ?_, ?_, ?_⟩
  · apply classifyOutput?_eq_none
    intro d hd hsign
    -- the body begins with white space or with the word
    have hplain : isBlank d = true ∨ isNamePart d = true := by
      cases before with
      | nil =>
        cases hd
        exact .inr hc
      | cons b before =>
        cases hd
        exact .inl (hbefore _ List.mem_cons_self)
    have hsigns : signHeads.all (fun d => !(isBlank d || isNamePart d)) = true := by decide +kernel
    have hnone := List.all_eq_true.mp hsigns d hsign
    rcases hplain with h | h <;> simp [h] at hnone
  · rw [htrim]
    exact fun hmem => hlone _ hmem hbracket
  · rw [htrim, enclosed_append]
    exact Slice.firstWord_append hparts hrest
  · rw [htrim, enclosed_append]
    exact Slice.afterWord?_word hrest

namespace BeginsWith

/-- No other word is recognised. -/
theorem other (h : BeginsWith body word rest) (word' : List Char) (hword : word' ∈ directiveWords)
    (hne : word ≠ word') : body.trim.afterWord? word' = none :=
  Slice.afterWord?_eq_none (isNamePart_of_mem_directiveWords hword) (h.first ▸ hne)

theorem forEach {item : String} {code : Slice} (h : BeginsWith body "foreach".toList rest)
    (hloop : splitLoop? rest = some (item, code)) (hread : readExpression code = .ok e) :
    classify body = .ok (.forEach item e) := by
  unfold classify
  simp only [h.unsigned, h.behind, hloop, hread]
  rfl

theorem ifThen (h : BeginsWith body "if".toList rest)
    (hread : readCondition rest body.span = .ok e) : classify body = .ok (.ifThen e) := by
  have hforEach := h.other "foreach".toList (by decide) (by decide)
  unfold classify
  simp only [h.unsigned, h.behind, hforEach, ofWord?_eq_none h.longer, hread]
  rfl

theorem elseIf {code : Slice} (h : BeginsWith body word rest)
    (hword : word ∈ ["elseif".toList, "else".toList]) (hafter : afterElseIf? body.trim = some code)
    (hread : readCondition code body.span = .ok e) : classify body = .ok (.elseIf e) := by
  have hne {word' : List Char} (hword' : word' ∉ ["elseif".toList, "else".toList]) : word ≠ word' := by
    rintro rfl
    exact hword' hword
  have hforEach := h.other "foreach".toList (by decide) (hne (by decide))
  have hif := h.other "if".toList (by decide) (hne (by decide))
  unfold classify
  simp only [h.unsigned, hforEach, hif, ofWord?_eq_none h.longer, hafter, hread]
  rfl

theorem afterElseIf?_eq_none (h : BeginsWith body word rest)
    (hword : word ∉ ["elseif".toList, "else".toList]) : afterElseIf? body.trim = none := by
  have hne {word' : List Char} (hword' : word' ∈ ["elseif".toList, "else".toList]) : word ≠ word' := by
    rintro rfl
    exact hword hword'
  have helseIf := h.other "elseif".toList (by decide) (hne (by decide))
  have helse := h.other "else".toList (by decide) (hne (by decide))
  rw [afterElseIf?, helseIf]
  simp only [helse]

theorem define {name : String} {inner : Slice} {parameters : List String}
    (h : BeginsWith body "define".toList rest) (hcall : splitCall? rest = some (name, inner))
    (hread : readParameters? inner = some parameters) :
    classify body = .ok (.define name parameters) := by
  have hforEach := h.other "foreach".toList (by decide) (by decide)
  have hif := h.other "if".toList (by decide) (by decide)
  have helse := h.afterElseIf?_eq_none (by decide)
  unfold classify
  simp only [h.unsigned, h.behind, hforEach, hif, helse, ofWord?_eq_none h.longer, hcall, hread]
  rfl

theorem run {name : String} {inner : Slice} (h : BeginsWith body "run".toList rest)
    (hcall : splitCall? rest = some (name, inner)) (hread : readArguments inner = .ok es) :
    classify body = .ok (.run name es) := by
  have hforEach := h.other "foreach".toList (by decide) (by decide)
  have hif := h.other "if".toList (by decide) (by decide)
  have hdefine := h.other "define".toList (by decide) (by decide)
  have helse := h.afterElseIf?_eq_none (by decide)
  unfold classify
  simp only [h.unsigned, h.behind, hforEach, hif, helse, hdefine, ofWord?_eq_none h.longer, hcall,
    hread]
  rfl

end BeginsWith

/-! ### Reading what is written -/

theorem readCondition_enclosed {whole : Span} (hgap : AllBlank gap)
    (hcode : WritesCode (offset + bytes gap + 1) text e) :
    readCondition ⟨offset, enclosed gap text⟩ whole = .ok e := by
  have hopener : (⟨offset, enclosed gap text⟩ : Slice).trimStart =
      ⟨offset + bytes gap, '(' :: (text ++ [')'])⟩ :=
    Slice.trimStart_padded hgap (by rintro _ ⟨⟩; rfl)
  rw [readCondition, hopener, hcode.read_enclosed hgap]
  rfl

/-- A written directive is read back, white space around it not counting. -/
theorem Written.classify {d : Directive} (h : Written (start + bytes before) text d)
    (hbefore : AllBlank before) (hafter : AllBlank after) :
    classify ⟨start, before ++ (text ++ after)⟩ = .ok d := by
  have hends {blanks : List Char} (hblanks : AllBlank blanks) (hne : blanks ≠ []) (cs : List Char) :
      ∀ c ∈ (blanks ++ cs).head?, isBlank c = true := by
    rw [List.head?_append_of_ne_nil _ hne]
    exact hblanks.head
  -- one case for each form that can be written: the first word is the only one that the body begins
  -- with, and what is behind it reads back
  cases h with
  | @ifThen gap text e hgap hcode =>
    rw [bytes_append, ← Nat.add_assoc] at hcode
    exact BeginsWith.ifThen (beginsWith_enclosed hbefore hafter (by decide) hgap.head)
      (readCondition_enclosed hgap hcode)
  | @elseIf gap text e hgap hcode =>
    rw [bytes_append, ← Nat.add_assoc] at hcode
    have hbegins : BeginsWith ⟨start, before ++ (enclosed ("elseif".toList ++ gap) text ++ after)⟩
      "elseif".toList _ := beginsWith_enclosed hbefore hafter (by decide) hgap.head
    apply hbegins.elseIf (by decide) _ (readCondition_enclosed hgap hcode)
    rw [afterElseIf?, hbegins.behind]
  -- `else` is found first, and then `if` behind the white space
  | @elseThenIf blanks gap text e hblanks hne hgap hcode =>
    simp only [bytes_append, ← Nat.add_assoc] at hcode
    have hbegins : BeginsWith
      ⟨start, before ++ (enclosed ("else".toList ++ (blanks ++ ("if".toList ++ gap))) text ++ after)⟩
      "else".toList _ := beginsWith_enclosed hbefore hafter (by decide) (hends hblanks hne _)
    apply hbegins.elseIf (by decide) _ (readCondition_enclosed hgap hcode)
    rw [afterElseIf?, hbegins.other "elseif".toList (by decide) (by decide), hbegins.behind]
    simp only [enclosed_append]
    rw [Slice.trimStart_padded hblanks (by rintro _ ⟨⟩; rfl),
      Slice.afterWord?_word (head_enclosed hgap.head)]
  | @forEach gap front item blanks text e hgap hfront hitem hblanks hne htext hcode =>
    rw [bytes_append, ← Nat.add_assoc] at hcode
    exact BeginsWith.forEach (beginsWith_enclosed hbefore hafter (by decide) hgap.head)
      (splitLoop?_enclosed hgap hfront hitem hblanks hne htext) hcode.read
  | @define blanks name gap text parameters hblanks hne hname hgap hlist =>
    rw [bytes_append, ← Nat.add_assoc] at hlist
    exact BeginsWith.define (beginsWith_enclosed hbefore hafter (by decide) (hends hblanks hne _))
      (splitCall?_enclosed hblanks hname hgap) hlist.readParameters?
  | @run blanks name gap text arguments hblanks hne hname hgap hlist =>
    rw [bytes_append, ← Nat.add_assoc] at hlist
    exact BeginsWith.run (beginsWith_enclosed hbefore hafter (by decide) (hends hblanks hne _))
      (splitCall?_enclosed hblanks hname hgap) (hlist.readArguments (Nat.succ_pos _))

/-- **Directives are read back.**  What is written out, with white space around it, is classified as the
directive that it writes, with its names and with its code in its places.  And what is read as
statements is classified as these statements, unless its first word is a word of directives or it
begins with a minus. -/
theorem classify_written :
    (∀ (start : Nat) (before text after : List Char) (d : Directive), AllBlank before →
      AllBlank after → Written (start + bytes before) text d →
      classify ⟨start, before ++ (text ++ after)⟩ = .ok d) ∧
    ∀ (body : Slice) (ss : List Statement), readStatements body = .ok ss →
      body.trim.firstWord ∉ directiveWords → body.chars.head? ≠ some '-' →
      classify body = .ok (.statements ss) := by
  constructor
  · intro start before text after d hbefore hafter h
    exact h.classify hbefore hafter
  · intro body ss h hfirst hminus
    exact classify_statements h hfirst hminus

/-- A loop over an item that is called `in`, with a closing bracket in a quoted text; and a statement whose
first word only begins with a word of directives. -/
theorem classify_written_in :
    (∃ e, Written 1 "foreach (in in [f(a), ')'])".toList (.forEach "in" e) ∧
      classify ⟨0, " foreach (in in [f(a), ')']) ".toList⟩ = .ok (.forEach "in" e)) ∧
    ∃ ss, readStatements ⟨0, "iffy = if$".toList⟩ = .ok ss ∧
      classify ⟨0, "iffy = if$".toList⟩ = .ok (.statements ss) := by
  obtain ⟨hwritten, hstatements⟩ := classify_written
  have hcode : IsCodeOf "[f(a), ')']".toList
      (.array ⟨0, 11⟩ [.call ⟨1, 5⟩ (.identifier ⟨1, 2⟩ "f") [.identifier ⟨3, 4⟩ "a"],
        .literal ⟨7, 10⟩ (.text ")")]) := by
    refine ⟨by rfl, fun ts hscan span hmem => ?_⟩
    cases hscan
    simp at hmem
  have hblank : AllBlank [' '] := List.forall_mem_singleton.mpr rfl
  have hitem : isName "in".toList = true := by decide +kernel
  have hloop : Written 1 "foreach (in in [f(a), ')'])".toList (.forEach "in" _) :=
    .forEach hblank allBlank_nil hitem hblank (List.cons_ne_nil _ _) rfl
      (.intro hblank allBlank_nil hcode)
  have hread : readStatements ⟨0, "iffy = if$".toList⟩ =
      .ok [.evaluate (.assign ⟨0, 10⟩ "iffy" (.identifier ⟨7, 10⟩ "if$"))] := by rfl
  refine ⟨⟨_, hloop, hwritten 0 [' '] _ [' '] _ hblank hblank hloop⟩, _, hread, ?_⟩
  exact hstatements _ _ hread (by decide +kernel) (by decide)

end Stencil
