/-
Stencil/Proofs/Surrounding.lean

Code with other text around it.  Inside of a directive the text of an expression stands
between white space, brackets, commas and semicolons.  White space has no tokens, and no
token goes on with any of these characters (`Severs`), so the tokens of a code text are the
same wherever it is put between them (`Lexed.padded`).

Two things follow.  A semicolon behind a code text changes nothing, as the grammar lets
it end a statement (`readExpression_semicolon`).  And code that needs no semicolon
(`IsCodeOf`) makes an operand wherever it stands, so it may be put in brackets or listed
(`IsCodeOf.lexed`).
-/
import Stencil.Proofs.Deriving
import Stencil.Proofs.ExactPlaces
import Stencil.Proofs.MovedCode
import Stencil.Proofs.TokenCuts

namespace Stencil

open Text

variable {offset : Nat} {gap before after behind code : List Char} {ts : List (Token × Span)}
  {e : Expression}

/-! ### White space, and where tokens end -/

/-- White space, or nothing. -/
def AllBlank (cs : List Char) : Prop := ∀ c ∈ cs, isBlank c = true

/-- The text is empty, or no token goes on with its first character. -/
def Severs (behind : List Char) : Prop := ∀ c ∈ behind.head?, isEnding c = true

theorem allBlank_nil : AllBlank [] := nofun

theorem AllBlank.append (h : AllBlank before) (h' : AllBlank after) : AllBlank (before ++ after) :=
  List.forall_mem_append.mpr ⟨h, h'⟩

theorem AllBlank.tail {c : Char} {cs : List Char} (h : AllBlank (c :: cs)) : AllBlank cs :=
  (List.forall_mem_cons.mp h).2

theorem severs_nil : Severs [] := nofun

theorem severs_cons {c : Char} (hc : isEnding c = true) (cs : List Char) : Severs (c :: cs) := by
  rintro _ ⟨⟩
  exact hc

/-- White space may be put in front. -/
theorem Severs.prepend (h : Severs behind) (hgap : AllBlank gap) : Severs (gap ++ behind) := by
  cases gap with
  | nil => exact h
  | cons c gap => exact severs_cons (isEnding_of_isBlank (hgap c List.mem_cons_self)) _

theorem Severs.softens (h : Severs behind) : Softens [] behind := by
  cases behind with
  | nil => exact .nil _
  | cons c cs => exact .ending (h c rfl) _ cs

/-! ### Tokens in their surroundings -/

/-- White space has no tokens. -/
theorem AllBlank.lexed (h : AllBlank gap) (behind : List Char) (offset : Nat) :
    Lexed behind offset gap [] := by
  induction gap generalizing offset with
  | nil => exact .nil offset
  | cons c gap ih => exact .blank (h c List.mem_cons_self) (ih h.tail _)

/-- White space may stand behind a code text, and what lets every token end behind that. -/
theorem Lexed.trailed (h : Lexed [] offset code ts) (hafter : AllBlank after)
    (hbehind : Severs behind) : Lexed behind offset (code ++ after) ts := by
  have hcode : Lexed (after ++ behind) offset code ts :=
    h.softened (hbehind.prepend hafter).softens
  have hall : Lexed behind offset (code ++ after) (ts ++ []) := hcode.append (hafter.lexed behind _)
  rwa [List.append_nil] at hall

/-- The tokens of a code text do not change if white space stands around it and if what stands behind
that lets every token end. -/
theorem Lexed.padded (h : Lexed [] (offset + bytes before) code ts) (hbefore : AllBlank before)
    (hafter : AllBlank after) (hbehind : Severs behind) :
    Lexed behind offset (before ++ (code ++ after)) ts :=
  (hbefore.lexed (code ++ after ++ behind) offset).append (h.trailed hafter hbehind)

/-- A character that is a token whatever stands behind it. -/
theorem Lexed.sign {c : Char} {t : Token} (hread : ∀ cs, Token.read (c :: cs) = .token t 1)
    (hblank : isBlank c = false) (behind : List Char) (offset : Nat) :
    Lexed behind offset [c] [(t, ⟨offset, offset + c.utf8Size⟩)] := by
  have hsign : Lexed behind offset ([c] ++ []) [(t, ⟨offset, offset + bytes [c]⟩)] :=
    .token hblank (hread _) (.nil _)
  rwa [List.append_nil, bytes_cons, bytes_nil, Nat.add_zero] at hsign

/-- Code in brackets. -/
theorem Lexed.bracketed (b : Bracket) (behind : List Char)
    (h : Lexed (b.closer :: behind) (offset + 1) code ts) :
    ∃ first last, first.start = offset ∧
      Lexed behind offset (b.opener :: (code ++ [b.closer]))
        ((.opening b, first) :: (ts ++ [(.closing b, last)])) := by
  have hopener : Lexed (code ++ [b.closer] ++ behind) offset [b.opener] [(.opening b, _)] :=
    .sign (fun cs => by cases b <;> rfl) (by cases b <;> rfl) _ offset
  have hcloser : Lexed behind (offset + 1 + bytes code) [b.closer] [(.closing b, _)] :=
    .sign (fun cs => by cases b <;> rfl) (by cases b <;> rfl) _ _
  have hsize : offset + 1 = offset + bytes [b.opener] := by cases b <;> rfl
  have hinside := h.append hcloser
  rw [hsize] at hinside
  exact ⟨_, _, rfl, hopener.append hinside⟩

/-! ### A semicolon behind an expression -/

/-- A semicolon behind a code text is dropped. -/
theorem readStatements_semicolon {code : Slice} {ss : List Statement} (hgap : AllBlank gap)
    (h : readStatements code = .ok ss) :
    readStatements { code with chars := code.chars ++ gap ++ [';'] } = .ok ss := by
  obtain ⟨ts, hscan, hmakes⟩ := readStatements_eq_ok_iff.mp h
  have hcode : Lexed [';'] code.start (code.chars ++ gap) ts :=
    (scan_eq_ok_iff.mp hscan).trailed hgap (severs_cons (by decide +kernel) [])
  have hsemicolon : Lexed [] (code.start + bytes (code.chars ++ gap)) [';']
      [(.symbol .semicolon, _)] := .sign (fun cs => rfl) rfl [] _
  exact readStatements_eq_ok_iff.mpr
    ⟨_, scan_eq_ok_iff.mpr (hcode.append hsemicolon), .programEnded (.semicolon hmakes)⟩

theorem readExpression_semicolon {code : Slice} (hgap : AllBlank gap)
    (h : readExpression code = .ok e) :
    readExpression { code with chars := code.chars ++ gap ++ [';'] } = .ok e := by
  rw [readExpression, readStatements_semicolon hgap (readStatements_of_readExpression h)]
  rfl

/-! ### Code without semicolons -/

/-- An expression stands where its code does. -/
theorem readExpression_at (h : readExpression ⟨0, code⟩ = .ok e) (offset : Nat) :
    readExpression ⟨offset, code⟩ = .ok (e.moved offset) := by
  have hplace : (⟨0, code⟩ : Slice).moved offset = ⟨offset, code⟩ := rfl
  rw [← hplace, readExpression_moved, h]
  rfl

/-- The text is read as the expression, and no semicolon is among its tokens. -/
structure IsCodeOf (code : List Char) (e : Expression) : Prop where
  read : readExpression ⟨0, code⟩ = .ok e
  unended : ∀ ts, Token.scan ⟨0, code⟩ = .ok ts → ∀ span, (.symbol .semicolon, span) ∉ ts

/-- What makes no statements is made of semicolons. -/
theorem Makes.semicolons {phrase : Phrase} (h : Makes phrase ts)
    (hphrase : phrase = .ended [] ∨ phrase = .program []) :
    ∀ entry ∈ ts, entry.1 = .symbol .semicolon := by
  induction h with
  | noStatements => nofun
  | semicolon _ ih =>
    obtain ⟨⟨⟩⟩ | ⟨⟨⟩⟩ := hphrase
    exact List.forall_mem_append.mpr ⟨ih (.inr rfl), List.forall_mem_singleton.mpr rfl⟩
  | programEnded _ ih =>
    obtain ⟨⟨⟩⟩ | ⟨⟨⟩⟩ := hphrase
    exact ih (.inl rfl)
  | programDeclared h =>
    -- a declaration is a statement
    obtain ⟨⟨⟩⟩ | heq := hphrase
    cases h <;> simp at heq
  | evaluate => simp at hphrase
  | _ => simp at hphrase

/-- Without semicolons at its ends, the tokens of a single expression make it up by themselves. -/
theorem Makes.operand_of_evaluate (h : Makes (.program [.evaluate e]) ts)
    (hhead : ∀ span, ts.head? ≠ some (.symbol .semicolon, span))
    (hlast : ∀ span, ts.getLast? ≠ some (.symbol .semicolon, span)) :
    ∃ x, Makes (.operand 0 x) ts ∧ x.value = e := by
  generalize hss : [Statement.evaluate e] = ss at h
  have hone : [] ++ [Statement.evaluate e] = ss := hss
  cases h with
  | programEnded h =>
    cases h with
    | noStatements => cases hss
    | semicolon => exact absurd List.getLast?_concat (hlast _)
  | programDeclared h =>
    -- the last statement of a declaration is none that evaluates an expression
    cases h with
    | declareName => cases (List.append_inj_right' hone rfl)
    | declareValue => cases (List.append_inj_right' hone rfl)
  | @evaluate ss x ts us h hx =>
    obtain ⟨rfl, heq⟩ := List.append_inj' hone rfl
    cases heq
    cases ts with
    | nil => exact ⟨x, hx, rfl⟩
    | cons entry ts =>
      obtain ⟨t, span⟩ := entry
      obtain rfl : t = .symbol .semicolon := h.semicolons (.inl rfl) _ List.mem_cons_self
      exact absurd rfl (hhead span)

/-- Wherever code without semicolons stands, its tokens make the expression, moved to that place. -/
theorem IsCodeOf.lexed (h : IsCodeOf code e) (offset : Nat) :
    ∃ ts x, Lexed [] offset code ts ∧ Makes (.operand 0 x) ts ∧ x.value = e.moved offset := by
  obtain ⟨ts, hscan, hmakes⟩ := readStatements_eq_ok_iff.mp (readStatements_of_readExpression h.read)
  have hplace : (⟨0, code⟩ : Slice).moved offset = ⟨offset, code⟩ := rfl
  have hmoved : Token.scan ⟨offset, code⟩ = .ok (ts.map (movedToken offset)) := by
    rw [← hplace, Token.scan_moved, hscan]
    rfl
  obtain ⟨us, hus, hmakes'⟩ :=
    readStatements_eq_ok_iff.mp (readStatements_of_readExpression (readExpression_at h.read offset))
  obtain rfl : _ = us := Except.ok.inj (hmoved.symm.trans hus)
  have hunended : ∀ span, (.symbol .semicolon, span) ∉ ts.map (movedToken offset) := fun span hmem => by
    obtain ⟨⟨t, first⟩, hfirst, heq⟩ := List.mem_map.mp hmem
    cases heq
    exact h.unended ts hscan first hfirst
  obtain ⟨x, hx, hvalue⟩ := hmakes'.operand_of_evaluate
    (fun span hhead => hunended span (List.mem_of_head? hhead))
    fun span hlast => hunended span (List.mem_of_getLast? hlast)
  exact ⟨_, x, scan_eq_ok_iff.mp hmoved, hx, hvalue⟩

end Stencil
