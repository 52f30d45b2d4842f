/-
Stencil/Proofs/RoundTrip.lean

Printing an expression and reading the text gives the expression back.  The tokens of
an expression that can be printed are read from its text one by one, since each of them
lexes in front of a blank; and the tokens read as the expression from the start, where
nothing is open and any expression may stand.

The main result is `readExpression_print`.
-/
import Stencil.Proofs.Lexing
import Stencil.Proofs.Parsing

namespace Stencil

/-! ### The tokens can be printed -/

section Tokens

variable {quote : Char}

/-- All of the tokens can be printed. -/
def AllPrintable (quote : Char) (tokens : List Token) : Prop := ∀ t ∈ tokens, t.Printable quote

namespace AllPrintable

variable {t : Token} {tokens tokens' : List Token}

theorem nil : AllPrintable quote [] := nofun

theorem cons (ht : t.Printable quote) (h : AllPrintable quote tokens) :
    AllPrintable quote (t :: tokens) :=
  List.forall_mem_cons.mpr ⟨ht, h⟩

theorem append (h : AllPrintable quote tokens) (h' : AllPrintable quote tokens') :
    AllPrintable quote (tokens ++ tokens') :=
  List.forall_mem_append.mpr ⟨h, h'⟩

/-- Brackets, words and symbols can always be printed. -/
theorem enclosed (h : AllPrintable quote tokens) (b : Bracket) :
    AllPrintable quote (.opening b :: (tokens ++ [.closing b])) :=
  .cons trivial (h.append (.cons trivial .nil))

theorem bracketed (h : AllPrintable quote tokens) (least level : Nat) :
    AllPrintable quote (bracketed least level tokens) := by
  rw [Stencil.bracketed]
  split
  · exact h
  · exact h.enclosed .round

end AllPrintable

theorem printable_textToken (text : String) : (textToken quote text).Printable quote :=
  ⟨text.toList, rfl⟩

theorem printable_literal {span : Span} {value : Literal}
    (h : (Expression.literal span value).Printable) : (value.token quote).Printable quote := by
  cases value with
  | number x => exact h
  | text t => exact printable_textToken t
  | bool b => cases b <;> trivial
  | null => trivial
  | undefined => trivial

theorem printable_unary (operator : UnaryOperator) : operator.token.Printable quote := by
  cases operator <;> trivial

mutual

/-- The tokens of an expression that can be printed can all be printed. -/
theorem allPrintable_tokens : (e : Expression) → e.Printable → AllPrintable quote (e.tokens quote)
  | .literal _ _, h => .cons (printable_literal h) .nil
  | .identifier _ _, h => .cons h .nil
  | .array _ items, h => (allPrintable_items items h).enclosed .square
  | .object _ entries, h => (allPrintable_entries entries h).enclosed .curly
  | .member _ object _, ⟨hobject, hproperty⟩ =>
    ((allPrintable_tokens object hobject).bracketed _ _).append
      (.cons trivial (.cons hproperty .nil))
  | .index _ object index, ⟨hobject, hindex⟩ =>
    ((allPrintable_tokens object hobject).bracketed _ _).append
      ((allPrintable_tokens index hindex).enclosed .square)
  | .call _ callee arguments, ⟨hcallee, harguments⟩ =>
    ((allPrintable_tokens callee hcallee).bracketed _ _).append
      ((allPrintable_items arguments harguments).enclosed .round)
  | .unary _ operator operand, h =>
    .cons (printable_unary operator) ((allPrintable_tokens operand h).bracketed _ _)
  | .binary _ _ left right, ⟨hleft, hright⟩ =>
    ((allPrintable_tokens left hleft).bracketed _ _).append
      (.cons trivial ((allPrintable_tokens right hright).bracketed _ _))
  | .conditional _ condition consequent alternative, ⟨hcondition, hconsequent, halternative⟩ =>
    ((allPrintable_tokens condition hcondition).bracketed _ _).append
      (.cons trivial ((allPrintable_tokens consequent hconsequent).append
        (.cons trivial (allPrintable_tokens alternative halternative))))
  | .assign _ _ value, ⟨hname, hvalue⟩ =>
    .cons hname (.cons trivial (allPrintable_tokens value hvalue))

theorem allPrintable_items : (items : List Expression) → PrintableAll items →
    AllPrintable quote (tokensOfItems quote items)
  | [], _ => .nil
  | e :: es, ⟨he, hes⟩ => by
    rw [tokensOfItems]
    refine (allPrintable_tokens e he).append ?_
    split
    · exact .nil
    · exact .cons trivial (allPrintable_items es hes)

theorem allPrintable_entries : (entries : List (String × Expression)) → PrintableEntries entries →
    AllPrintable quote (tokensOfEntries quote entries)
  | [], _ => .nil
  | (key, e) :: entries, ⟨he, hentries⟩ => by
    rw [tokensOfEntries]
    refine .cons (printable_textToken key) (.cons trivial ((allPrintable_tokens e he).append ?_))
    split
    · exact .nil
    · exact .cons trivial (allPrintable_entries entries hentries)

end

end Tokens

/-! ### Reading what was printed -/

/-- Behind an expression with which everything began, the expression is the only statement. -/
theorem done?_behind {level : Nat} {e : Expression} {p : Progress} (h : Behind [] [] level e p) :
    ∃ e', p.done? = some [.evaluate e'] ∧ e'.bare = e.bare := by
  obtain ⟨frames, x, assignable, rfl, hpending⟩ := h
  obtain ⟨y, hclose, hy⟩ := hpending.closeAll []
  have hend : closeAll [] y = ([], y) := rfl
  refine ⟨y.value, ?_, hy⟩
  simp only [Progress.done?, hclose, hend]
  rfl

/-- An expression that is printed, whatever quote is used, reads as the same expression. -/
theorem readExpression_print {quote : Char} (hquote : IsQuote quote) {e : Expression}
    (h : e.Printable) :
    ∃ e', readExpression ⟨0, e.print quote⟩ = .ok e' ∧ e'.bare = e.bare := by
  have hlexes : ∀ t ∈ e.tokens quote, Lexes (t.spell quote) t :=
    fun t ht => lexes_spell hquote (allPrintable_tokens e h t ht)
  obtain ⟨placed, hscan, htokens⟩ := scanFrom_words hlexes 0
  have hreaches : Reaches (placed.map Prod.fst) Progress.start (Behind [] [] 0 e) := by
    rw [htokens]
    exact reads_tokens hquote e 0 (Nat.zero_le _) true [] [] (fun _ => rfl) (fun _ _ _ _ => rfl)
  obtain ⟨q, hq, hread⟩ := hreaches.readAll (.at (Slice.stop ⟨0, e.print quote⟩))
  obtain ⟨e', hdone, hbare⟩ := done?_behind hq
  refine ⟨e', ?_, hbare⟩
  have hstatements : readStatements ⟨0, e.print quote⟩ = .ok [.evaluate e'] := by
    have hscan : Token.scan ⟨0, e.print quote⟩ = .ok placed := hscan
    rw [Progress.readAll, hdone] at hread
    simp only [readStatements, hscan, bind, Except.bind, hread]
  rw [readExpression, hstatements]
  rfl

/-- Subtractions group from the left, so one that stands on the right needs its brackets. -/
theorem readExpression_print_grouped :
    let difference := Expression.binary default .subtract (.identifier default "a")
      (.binary default .subtract (.identifier default "b") (.literal default (.number (.ofNat 1))))
    let e := Expression.conditional default (.unary default .not (.member default difference "c"))
      (.assign default "d" (.literal default (.text "it's")))
      (.array default [.object default [("k", .literal default .null)]])
    IsQuote '\'' ∧ e.Printable ∧
      ∃ e', readExpression ⟨0,
        "! ( a - ( b - 1 ) ) . c ? d = 'it\\'s' : [ \x7b 'k' : null \x7d ]".toList⟩ = .ok e' ∧
          e'.bare = e.bare := by
  intro difference e
  have hquote : IsQuote '\'' := .inl rfl
  have hone : IsSmallWhole (.ofNat 1) := ⟨1, by decide, rfl⟩
  have hfree : ∀ name ∈ ["a", "b", "c", "d"], IsFreeName name := by decide +kernel
  have hprintable : e.Printable :=
    ⟨⟨⟨hfree "a" (by decide), hfree "b" (by decide), hone⟩, hfree "c" (by decide)⟩,
      ⟨hfree "d" (by decide), trivial⟩, ⟨trivial, trivial⟩, trivial⟩
  have hprint : e.print '\'' =
      "! ( a - ( b - 1 ) ) . c ? d = 'it\\'s' : [ \x7b 'k' : null \x7d ]".toList := by
    decide +kernel
  refine ⟨hquote, hprintable, ?_⟩
  rw [← hprint]
  exact readExpression_print hquote hprintable

end Stencil
