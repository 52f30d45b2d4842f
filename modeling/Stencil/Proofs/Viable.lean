/-
Stencil/Proofs/Viable.lean

A fault points at the first offence.  A row of tokens is viable if some text whose tokens
begin with it is a program; a text begins a lexable one if more text makes it lexable.

Whatever has been read can be completed: an awaited operand by a name, and the constructs
that are open by their brackets, from the innermost to the outermost (`Open.completable`).
Such tokens can be printed behind the text that has been read, so tokens that have been
read are viable; and as the grammar does not look at places, tokens that cannot be read at
theirs can be read nowhere (`not_viable`).  The text in front of the place where a scan
fails is completed in the same way by a quote or by a second `&` or `|`.

The main result, `readStatements_fault`, says of every code text that cannot be read where
its fault lies.
-/
import Stencil.Proofs.Deriving
import Stencil.Proofs.Moving
import Stencil.Proofs.TokenCuts

namespace Stencil

open Text

/-- The text is scanned without a fault. -/
def Lexable (cs : List Char) : Prop := ∃ tokens, Token.scan ⟨0, cs⟩ = .ok tokens

/-- More text makes the text lexable. -/
def BeginsLexable (cs : List Char) : Prop := ∃ more, Lexable (cs ++ more)

/-- The tokens of some program begin with these. -/
def Viable (tokens : List Token) : Prop :=
  ∃ code placed ss, Token.scan code = .ok placed ∧ tokens <+: placed.map Prod.fst ∧
    readStatements code = .ok ss

/-! ### Completing what is open -/

/-- Tokens that can be printed complete the tokens to a program. -/
def Completable (ts : List (Token × Span)) : Prop :=
  ∃ (more : List Token) (ss : List Statement), (∀ t ∈ more, t.Printable '"') ∧
    Makes (.program ss) (ts ++ more.map fun t => (t, .at 0))

section Completable

variable {statements ss : List Statement} {level : Nat} {opened : List OpenConstruct}
  {ts us : List (Token × Span)} {t : Token} {x : Operand} {p : Progress}

theorem Completable.of_makes (h : Makes (.program ss) ts) : Completable ts :=
  ⟨[], ss, nofun, by rwa [List.map_nil, List.append_nil]⟩

/-- Tokens are completed by one that can be printed and by what completes them then. -/
theorem Completable.of_concat (h : Completable us) (ht : t.Printable '"')
    (heq : us = ts ++ [(t, .at 0)]) : Completable ts := by
  subst heq
  obtain ⟨more, ss, hmore, hmakes⟩ := h
  refine ⟨t :: more, ss, List.forall_mem_cons.mpr ⟨ht, hmore⟩, ?_⟩
  rwa [List.map_cons, List.append_cons]

theorem printable_name : (Token.name "a").Printable '"' := ⟨by decide +kernel, by decide⟩

/-- A name makes an operand anywhere. -/
theorem makes_name (level : Nat) :
    Makes (.operand level ⟨.identifier (.at 0) "a", .at 0⟩) [(.name "a", .at 0)] := .identifier

/-- Behind an operand the open constructs can be closed, from the innermost to the outermost. -/
theorem Open.completable (h : Open statements level opened ts) (hx : Makes (.operand level x) us) :
    Completable (ts ++ us) := by
  -- by induction on the open constructs: what closes the innermost one makes up the operand of the next
  induction h generalizing x us with
  | bottom h => exact .of_makes (.evaluate h hx)
  | @declare n ts span sign h =>
    have hdeclared : Makes (.declared _) (ts ++ (.name n, span) :: (_, sign) :: us) :=
      .declareValue h hx
    simpa using Completable.of_makes hdeclared.programDeclared
  | @unary _ _ _ t span _ _ ht hlevel ih =>
    have hunary : Makes _ ((t, span) :: us) := .unary ht hx hlevel
    simpa using ih hunary
  | @binary _ _ _ _ t span _ _ _ ht hl hlevel ih =>
    have hbinary : Makes _ (_ ++ (t, span) :: us) := .binary ht hl hx hlevel
    simpa using ih hbinary
  -- a bracket needs its counterpart, which is written behind everything else
  | @group level _ ts first _ ih =>
    have hgroup : Makes (.operand level _) ((_, first) :: (us ++ [(_, .at 0)])) := .group hx
    exact (ih hgroup).of_concat (t := .closing .round) trivial (by simp)
  | @array level _ ts items first _ _ hes ih =>
    have harray : Makes (.operand level _) ((_, first) :: (items ++ us ++ [(_, .at 0)])) :=
      .array (.lastItem hes hx)
    exact (ih harray).of_concat (t := .closing .square) trivial (by simp)
  | @object level _ ts entries t key first span colon _ _ hes hkey ih =>
    have hentries : Makes (.entries _) (entries ++ (t, span) :: (_, colon) :: us) :=
      .lastEntry hes hkey hx
    have hobject : Makes (.operand level _) ((_, first) :: (_ ++ [(_, .at 0)])) := .object hentries
    exact (ih hobject).of_concat (t := .closing .curly) trivial (by simp)
  | @index level _ ts owner first _ _ ho ih =>
    have hindex : Makes (.operand level _) (owner ++ (_, first) :: (us ++ [(_, .at 0)])) :=
      .index ho hx
    exact (ih hindex).of_concat (t := .closing .square) trivial (by simp)
  | @call level _ ts callee items first _ _ _ ho hes ih =>
    have hcall : Makes (.operand level _)
        (callee ++ (_, first) :: (items ++ us ++ [(_, .at 0)])) := .call ho (.lastItem hes hx)
    exact (ih hcall).of_concat (t := .closing .round) trivial (by simp)
  -- behind a consequent a colon and some alternative have to come; any name will do
  | @consequent _ ts condition question _ _ hc ih =>
    have hconditional : Makes _
        (condition ++ (_, question) :: (us ++ (_, .at 0) :: [(.name "a", .at 0)])) :=
      .conditional hc hx (makes_name 0)
    have hcolon : Completable (ts ++ (condition ++ (.symbol .question, question) ::
        (us ++ [(.symbol .colon, .at 0)]))) :=
      (ih hconditional).of_concat printable_name (by simp)
    exact hcolon.of_concat (t := .symbol .colon) trivial (by simp)
  | @alternative _ _ _ _ question colon _ _ _ hc ha ih =>
    have hconditional : Makes _ (_ ++ (_, question) :: (_ ++ (_, colon) :: us)) :=
      .conditional hc ha hx
    simpa using ih hconditional
  | @assign _ _ first sign n _ ih =>
    have hassign : Makes _ ((.name n, first) :: (_, sign) :: us) := .assign hx
    simpa using ih hassign

/-- Whatever has been read can be completed. -/
theorem Holds.completable (h : Holds p ts) : Completable ts := by
  cases h with
  | expression h => exact (h.completable (makes_name 0)).of_concat printable_name rfl
  | @operand _ level _ _ h => exact (h.completable (makes_name level)).of_concat printable_name rfl
  | continuation h hx =>
    have hlevel := h.level_le
    exact h.completable (hx.mono (by omega))
  | @property _ level _ ts us _ dot h hx =>
    have hmember : Makes (.operand level _) (us ++ [(_, dot), (.name "a", .at 0)]) := .member hx
    exact (h.completable hmember).of_concat printable_name (by simp)
  | @key _ level _ ts us first _ h hes =>
    have hobject : Makes (.operand level _) ((_, first) :: (us ++ [(_, .at 0)])) :=
      .object (.entriesEnd hes)
    exact (h.completable hobject).of_concat (t := .closing .curly) trivial (by simp)
  | @colon _ level _ ts us t _ first span _ h hes hkey =>
    have hopen : Open _ 0 _ (ts ++ (_, first) :: (us ++ [(t, span), (_, .at 0)])) :=
      h.object hes hkey
    have hname := (hopen.completable (makes_name 0)).of_concat printable_name rfl
    exact hname.of_concat (t := .symbol .colon) trivial (by simp)
  | declarator h =>
    exact (Completable.of_makes h.declareName.programDeclared).of_concat printable_name rfl
  | declared h => exact .of_makes h.declareName.programDeclared

end Completable

/-! ### Viable rows of tokens -/

section Rows

variable {cs behind : List Char} {offset : Nat} {ts : List (Token × Span)} {p : Progress}
  {t : Token} {span : Span}

/-- What completes the tokens of a text can be written behind the text. -/
theorem Lexed.viable (h : Lexed behind offset cs ts) (hts : Completable ts) :
    Viable (ts.map Prod.fst) := by
  obtain ⟨more, ss, hmore, hmakes⟩ := hts
  have hwords : ∀ t ∈ more, Lexes (t.spell '"') t := fun t ht => lexes_spell (.inr rfl) (hmore t ht)
  obtain ⟨placed, hplaced, htokens⟩ := scanFrom_words hwords (offset + bytes cs + 1)
  have hfront : Lexed (' ' :: [' '].intercalate (more.map (Token.spell '"'))) offset cs ts :=
    h.softened (.blank _ _)
  have hscan := hfront.scanFrom
  rw [scanFrom_blank, hplaced, Except.map] at hscan
  have hsame : SameTokens (ts ++ placed) (ts ++ more.map fun t => (t, .at 0)) := by
    simp [SameTokens, htokens, Function.comp_def]
  obtain ⟨_, ⟨⟩, hmakes⟩ := hmakes.replaced hsame
  refine ⟨⟨offset, _⟩, ts ++ placed, _, hscan, ?_, readStatements_eq_ok_iff.mpr ⟨_, hscan, hmakes⟩⟩
  rw [List.map_append]
  exact List.prefix_append _ _

/-- Tokens that have been read are viable. -/
theorem viable_of_run (h : Lexed behind offset cs ts) (hrun : Progress.start.run ts = some p) :
    Viable (ts.map Prod.fst) :=
  h.viable (Holds.start.run hrun).completable

/-- No program goes on with a token that cannot be read. -/
theorem not_viable (hrun : Progress.start.run ts = some p) (hstep : p.step t span = none) :
    ¬Viable (ts.map Prod.fst ++ [t]) := by
  rintro ⟨code, placed, ss, hscan, ⟨more, hmore⟩, hread⟩
  obtain ⟨placed', hscan', hmakes⟩ := readStatements_eq_ok_iff.mp hread
  cases hscan.symm.trans hscan'
  -- the same tokens are read at the places at hand
  have hsame : SameTokens (ts ++ (t, span) :: more.map fun t => (t, .at 0)) placed := by
    rw [SameTokens, ← hmore]
    simp [Function.comp_def]
  obtain ⟨_, ⟨⟩, hmakes⟩ := hmakes.replaced hsame
  obtain ⟨q, hq, -⟩ := hmakes.isRead
  rw [Progress.run_append, hrun, Option.bind_some, Progress.run_cons, hstep] at hq
  cases hq

end Rows

/-! ### Lexable texts -/

section Lexable

variable {front rest : List Char} {c d : Char} {offset : Nat} {ts : List (Token × Span)}

/-- Whether a text is lexable does not depend on its place. -/
theorem lexable_iff (offset : Nat) {cs : List Char} :
    Lexable cs ↔ ∃ tokens, Token.scan ⟨offset, cs⟩ = .ok tokens := by
  have hmoved : Token.scan ⟨offset, cs⟩ = _ := Token.scan_moved (k := offset) ⟨0, cs⟩
  rw [hmoved, Lexable]
  cases Token.scan ⟨0, cs⟩ <;> simp

theorem Lexed.lexable (h : Lexed [] offset front ts) : Lexable front :=
  (lexable_iff offset).mpr ⟨ts, h.scan⟩

/-- A text is not lexable where its scan fails. -/
theorem Lexed.not_lexable {reach : Nat} (h : Lexed (c :: rest) offset front ts)
    (hblank : isBlank c = false) (hread : Token.read (c :: rest) = .stuck reach) :
    ¬Lexable (front ++ c :: rest) := by
  rw [lexable_iff offset]
  rintro ⟨tokens, hscan⟩
  have hstuck : Token.scan ⟨offset, front ++ c :: rest⟩ = _ := h.scan_stuck rfl hblank hread
  cases hscan.symm.trans hstuck

/-- A token that is the rest of a text makes the text lexable. -/
theorem Lexed.lexable_token {t : Token} (h : Lexed (c :: rest) offset front ts)
    (hblank : isBlank c = false) (hread : Token.read (c :: rest) = .token t (rest.length + 1)) :
    Lexable (front ++ c :: rest) := by
  have hword : Lexed [] (offset + bytes front) (c :: rest ++ []) _ :=
    .token hblank (by simpa using hread) (.nil _)
  rw [List.append_nil] at hword
  have hfront : Lexed (c :: rest ++ []) offset front ts := by rwa [List.append_nil]
  exact (hfront.append hword).lexable

/-- One or two quotes end an open text. -/
theorem exists_takeQuoted? {quote : Char} (hquote : quote ≠ '\\') {cs : List Char}
    (h : Token.takeQuoted? quote cs = none) :
    ∃ more raw, Token.takeQuoted? quote (cs ++ more) = some raw ∧
      (cs ++ more).length = raw.length + 1 := by
  have hend : Token.takeQuoted? quote [quote] = some [] := by
    rw [Token.takeQuoted?.eq_3 _ _ _ fun _ _ hback => (hquote hback).elim, if_pos rfl]
  fun_induction Token.takeQuoted? quote cs with
  | case1 => exact ⟨[quote], [], hend, rfl⟩
  | case2 c cs ih =>
    obtain ⟨more, raw, hraw, hlength⟩ := ih (Option.map_eq_none_iff.mp h)
    refine ⟨more, '\\' :: c :: raw, ?_, by simp_all⟩
    show (Token.takeQuoted? quote (cs ++ more)).map _ = _
    rw [hraw]
    rfl
  | case3 => cases h
  | case4 c cs hback hc ih =>
    by_cases hslash : c = '\\'
    · subst hslash
      -- a backslash at the end takes the first of two quotes along
      obtain rfl : cs = [] := by
        cases cs with
        | nil => rfl
        | cons d cs => exact (hback d cs rfl rfl).elim
      refine ⟨[quote, quote], ['\\', quote], ?_, rfl⟩
      show (Token.takeQuoted? quote [quote]).map _ = _
      rw [hend]
      rfl
    · obtain ⟨more, raw, hraw, hlength⟩ := ih (Option.map_eq_none_iff.mp h)
      refine ⟨more, c :: raw, ?_, by simp_all⟩
      rw [List.cons_append, takeQuoted?_plain hslash hc, hraw]
      rfl

/-- Text that begins a lexable one up to a place where its scan fails goes on behind that place. -/
theorem Lexed.not_beginsLexable {reach : Nat} (h : Lexed (c :: rest) offset front ts)
    (hc : isParting c = true) (hblank : isBlank c = false) {word : List Char}
    (hread : ∀ more, Token.read (c :: (word ++ more)) = .stuck reach) :
    ¬BeginsLexable (front ++ c :: word) := by
  rintro ⟨more, hmore⟩
  have hfront : Lexed (c :: (word ++ more)) offset front ts := h.softened (.parting hc _ _)
  refine hfront.not_lexable hblank (hread more) ?_
  rwa [List.append_assoc] at hmore

/-- A scan fails at the first character that no lexable text goes on with, or at the end of a text that
a lexable one begins with. -/
theorem scan_offence {code : Slice} {span : Span} (hscan : Token.scan code = .error span) :
    (∃ before c after, code.chars = before ++ c :: after ∧
      span = ⟨code.start + bytes before, code.start + bytes before + c.utf8Size⟩ ∧
      BeginsLexable before ∧ ¬BeginsLexable (before ++ [c])) ∨
    (span = .at code.stop ∧ ¬Lexable code.chars ∧ BeginsLexable code.chars) := by
  obtain ⟨front, c, rest, ts, reach, hchars, hfront, hblank, hread, hspan⟩ := stuck_of_scan hscan
  have hnot : ¬Lexable (front ++ c :: rest) := hfront.not_lexable hblank hread
  rw [Slice.stop, hspan, hchars]
  rcases Token.stuck_cases hread with ⟨rfl, hquote, hopen⟩ | ⟨rfl, hlone, hnext⟩ | ⟨rfl, hc⟩
  · -- a quoted text is open, and may be ended
    refine .inr ⟨by simp [Slice.drop, Slice.head, Span.at, Nat.add_assoc], hnot, ?_⟩
    have hplain : c ≠ '\\' ∧ isParting c = true := by
      rcases hquote with rfl | rfl <;> decide
    obtain ⟨more, raw, hraw, hlength⟩ := exists_takeQuoted? hplain.1 hopen
    refine ⟨more, ?_⟩
    have hsoft : Lexed (c :: (rest ++ more)) code.start front ts :=
      hfront.softened (.parting hplain.2 _ _)
    rw [List.append_assoc, List.cons_append]
    refine hsoft.lexable_token (t := .text (String.ofList raw)) hblank ?_
    rw [Token.read_quote hquote, hraw, hlength]
  · -- a second character may follow the first one, and nothing else may
    have hparting : isParting c = true := by
      rcases hlone with rfl | rfl <;> decide
    have hbegins : BeginsLexable (front ++ [c]) := by
      refine ⟨[c], ?_⟩
      have hsoft : Lexed [c, c] code.start front ts := hfront.softened (.parting hparting _ _)
      rw [List.append_assoc]
      rcases hlone with rfl | rfl
      · exact hsoft.lexable_token (t := .symbol .and) hblank rfl
      · exact hsoft.lexable_token (t := .symbol .or) hblank rfl
    cases rest with
    | nil => exact .inr ⟨by simp [Slice.drop, Slice.head, Span.at, Nat.add_assoc], hnot, hbegins⟩
    | cons d rest =>
      refine .inl ⟨front ++ [c], d, rest, by simp, ?_, hbegins, ?_⟩
      · simp [Slice.drop, Slice.head, Nat.add_assoc]
      · rw [List.append_assoc]
        exact hfront.not_beginsLexable hparting hblank fun more =>
          Token.read_lone hlone fun hhead => hnext hhead
  · refine .inl ⟨front, c, rest, rfl, by simp [Slice.drop, Slice.head], ⟨[], ?_⟩, ?_⟩
    · rw [List.append_nil]
      exact (hfront.softened (.nil _)).lexable
    · exact hfront.not_beginsLexable hc.isParting hblank fun more => hc more

end Lexable

/-! ### Faults -/

/-- **A fault points at the first offence.**  Where code has no tokens, the fault is the first character
that no lexable text goes on with, or lies at the end of code that is not lexable but that a lexable
text begins with.  Where its tokens are no program, the fault is the first token with which they are no
longer the beginning of one, or lies at the end of tokens that still are. -/
theorem readStatements_fault (code : Slice) :
    (∀ span, Token.scan code = .error span →
      readStatements code = .error (.malformed .unreadable span) ∧
      ((∃ before c after, code.chars = before ++ c :: after ∧
          span = ⟨code.start + bytes before, code.start + bytes before + c.utf8Size⟩ ∧
          BeginsLexable before ∧ ¬BeginsLexable (before ++ [c])) ∨
        (span = .at code.stop ∧ ¬Lexable code.chars ∧ BeginsLexable code.chars))) ∧
    (∀ placed fault, Token.scan code = .ok placed → readStatements code = .error fault →
      (∃ before t span after, placed = before ++ (t, span) :: after ∧
        fault = .malformed .unreadable span ∧
        Viable (before.map Prod.fst) ∧ ¬Viable (before.map Prod.fst ++ [t])) ∨
      (fault = .malformed .unreadable (.at code.stop) ∧ Viable (placed.map Prod.fst))) := by
  constructor
  · intro span hscan
    refine ⟨?_, scan_offence hscan⟩
    rw [readStatements, hscan]
    rfl
  · intro placed fault hscan hfault
    have hlexed := scan_eq_ok_iff.mp hscan
    rw [readStatements, hscan] at hfault
    simp only [bind, Except.bind] at hfault
    rcases hread : Progress.start.readAll (.at code.stop) placed with span | ss
    · rw [hread] at hfault
      cases hfault
      -- the automaton refuses a token, or the code ends where it may not
      rcases Progress.stuck_of_readAll hread with
        ⟨before, t, after, p, rfl, hrun, hstep⟩ | ⟨rfl, p, hrun, -⟩
      · obtain ⟨front, back, -, hfront, -⟩ := hlexed.split (List.cons_ne_nil _ _)
        exact .inl ⟨before, t, span, after, rfl, rfl, viable_of_run hfront hrun,
          not_viable hrun hstep⟩
      · exact .inr ⟨rfl, viable_of_run hlexed hrun⟩
    · rw [hread] at hfault
      cases hfault

/-- A quote and a call that are still open when the code ends. -/
theorem readStatements_fault_open :
    (readStatements ⟨3, "\"a".toList⟩ = .error (.malformed .unreadable ⟨5, 5⟩) ∧
      BeginsLexable "\"a".toList) ∧
    (readStatements ⟨3, "f(a".toList⟩ = .error (.malformed .unreadable ⟨6, 6⟩) ∧
      Viable [.name "f", .opening .round, .name "a"]) := by
  constructor
  · obtain ⟨hread, ⟨before, c, after, -, hspan, -⟩ | ⟨-, -, hbegins⟩⟩ :=
      (readStatements_fault ⟨3, "\"a".toList⟩).1 ⟨5, 5⟩ rfl
    · -- a fault at a character is not empty
      have hsize := c.utf8Size_pos
      obtain ⟨hstart, hstop⟩ := Span.mk.inj hspan
      omega
    · exact ⟨hread, hbegins⟩
  · have hscan : Token.scan ⟨3, "f(a".toList⟩ =
      .ok [(.name "f", ⟨3, 4⟩), (.opening .round, ⟨4, 5⟩), (.name "a", ⟨5, 6⟩)] := rfl
    have hread : readStatements ⟨3, "f(a".toList⟩ = .error (.malformed .unreadable ⟨6, 6⟩) := rfl
    refine ⟨hread, ?_⟩
    rcases (readStatements_fault ⟨3, "f(a".toList⟩).2 _ _ hscan hread with
      ⟨before, t, span, after, hplaced, hspan, -⟩ | ⟨-, hviable⟩
    · cases hspan
      have hmem : (t, (⟨6, 6⟩ : Span)) ∈ before ++ (t, ⟨6, 6⟩) :: after := by simp
      rw [← hplaced] at hmem
      simp at hmem
    · exact hviable

end Stencil
