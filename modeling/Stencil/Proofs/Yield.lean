/-
Stencil/Proofs/Yield.lean

Nothing that was written is lost in the statements that are read.  The yield of an
expression is what it says of its tokens, in the order of the source: its operands and
operators, the point, the question mark and the colons, and the square and curly
brackets.  Round brackets, commas, semicolons and the words that begin declarations only
hold the others together, so statements say nothing of them.

A quoted text yields what it says, and the key of an entry yields the text that it
stands for, however it is written; `Token.Shows` relates a token to what is yielded of
it.

The main result is `readStatements_yield`.
-/
import Mathlib.Data.List.Forall2
import Stencil.Proofs.Deriving

namespace Stencil

/-! ### Yields -/

/-- What an expression says of one of its tokens. -/
inductive Sign where
  | token (t : Token)
  /-- The text that a quoted text says. -/
  | text (value : String)
  /-- The key of an object. -/
  | key (key : String)

/-- What is said of a token. -/
def Token.Shows (t : Token) : Sign → Prop
  | .token t' => t = t'
  | .text value => ∃ raw, t = .text raw ∧ String.ofList (unescape raw.toList) = value
  | .key key => keyOfToken? t = some key

/-- The tokens that are more than punctuation. -/
def Token.isYielded : Token → Bool
  | .opening .round | .closing .round => false
  | .symbol .comma | .symbol .semicolon => false
  | .word .declareWord => false
  | _ => true

/-- What a literal says of its token. -/
def Literal.sign : Literal → Sign
  | .number x => .token (.number x)
  | .text value => .text value
  | .bool true => .token (.word .trueWord)
  | .bool false => .token (.word .falseWord)
  | .null => .token (.word .nullWord)
  | .undefined => .token (.word .undefinedWord)

mutual

/-- What an expression says of its tokens, in order. -/
def Expression.yield : Expression → List Sign
  | .literal _ value => [value.sign]
  | .identifier _ name => [.token (.name name)]
  | .array _ items =>
    .token (.opening .square) :: (yieldOfAll items ++ [.token (.closing .square)])
  | .object _ entries =>
    .token (.opening .curly) :: (yieldOfEntries entries ++ [.token (.closing .curly)])
  | .member _ object property =>
    object.yield ++ [.token (.symbol .dot), .token (.name property)]
  | .index _ object index =>
    object.yield ++ .token (.opening .square) :: (index.yield ++ [.token (.closing .square)])
  | .call _ callee arguments => callee.yield ++ yieldOfAll arguments
  | .unary _ operator operand => .token operator.token :: operand.yield
  | .binary _ operator left right =>
    left.yield ++ .token (.symbol operator.symbol) :: right.yield
  | .conditional _ condition consequent alternative =>
    condition.yield ++ .token (.symbol .question) ::
      (consequent.yield ++ .token (.symbol .colon) :: alternative.yield)
  | .assign _ name value => .token (.name name) :: .token (.symbol .assign) :: value.yield

/-- What some expressions say of their tokens. -/
def yieldOfAll : List Expression → List Sign
  | [] => []
  | e :: es => e.yield ++ yieldOfAll es

/-- What some entries say of their tokens. -/
def yieldOfEntries : List (String × Expression) → List Sign
  | [] => []
  | (key, e) :: entries => .key key :: .token (.symbol .colon) :: (e.yield ++ yieldOfEntries entries)

end

/-- What a statement says of its tokens. -/
def Statement.yield : Statement → List Sign
  | .declare name none => [.token (.name name)]
  | .declare name (some value) => .token (.name name) :: .token (.symbol .assign) :: value.yield
  | .evaluate value => value.yield

theorem yieldOfAll_append (es es' : List Expression) :
    yieldOfAll (es ++ es') = yieldOfAll es ++ yieldOfAll es' := by
  induction es with
  | nil => rfl
  | cons e es ih => rw [List.cons_append, yieldOfAll, ih, yieldOfAll, List.append_assoc]

theorem yieldOfEntries_append (es es' : List (String × Expression)) :
    yieldOfEntries (es ++ es') = yieldOfEntries es ++ yieldOfEntries es' := by
  induction es with
  | nil => rfl
  | cons entry es ih =>
    obtain ⟨key, e⟩ := entry
    rw [List.cons_append, yieldOfEntries, ih, yieldOfEntries]
    simp

/-- What a phrase says of its tokens. -/
def Phrase.yield : Phrase → List Sign
  | .operand _ x => x.value.yield
  | .leadingItems es | .items es => yieldOfAll es
  | .leadingEntries es | .entries es => yieldOfEntries es
  | .ended ss | .declaring ss | .declared ss | .program ss => ss.flatMap Statement.yield

/-! ### Tokens and what is said of them -/

/-- Token for token, and but for punctuation, the signs are what is said of the tokens. -/
def Tells (ts : List (Token × Span)) (signs : List Sign) : Prop :=
  List.Forall₂ Token.Shows ((ts.map Prod.fst).filter Token.isYielded) signs

namespace Tells

variable {ts us : List (Token × Span)} {signs signs' : List Sign} {t : Token} {sign : Sign}
  {span : Span}

theorem nil : Tells [] [] := List.Forall₂.nil

theorem append (h : Tells ts signs) (h' : Tells us signs') : Tells (ts ++ us) (signs ++ signs') := by
  rw [Tells, List.map_append, List.filter_append]
  exact List.rel_append h h'

theorem cons (ht : t.isYielded = true) (hsign : t.Shows sign) (h : Tells ts signs) :
    Tells ((t, span) :: ts) (sign :: signs) := by
  rw [Tells, List.map_cons, List.filter_cons_of_pos ht]
  exact .cons hsign h

/-- Nothing is said of punctuation. -/
theorem skip (ht : t.isYielded = false) (h : Tells ts signs) :
    Tells ((t, span) :: ts) signs := by
  rw [Tells, List.map_cons, List.filter_cons_of_neg (by simp [ht])]
  exact h

theorem concat (h : Tells ts signs) (ht : t.isYielded = true) (hsign : t.Shows sign) :
    Tells (ts ++ [(t, span)]) (signs ++ [sign]) :=
  h.append (.cons ht hsign .nil)

theorem concat_skip (h : Tells ts signs) (ht : t.isYielded = false) :
    Tells (ts ++ [(t, span)]) signs := by
  have htoken : Tells [(t, span)] [] := .skip ht .nil
  have happend := h.append htoken
  rwa [List.append_nil] at happend

end Tells

theorem UnaryOperator.eq_token {t : Token} {operator : UnaryOperator}
    (h : UnaryOperator.ofToken? t = some operator) : t = operator.token := by
  cases t with
  | symbol s => cases s <;> cases h <;> rfl
  | word w =>
    cases w with
    | typeofWord =>
      cases h
      rfl
    | _ => cases h
  | _ => cases h

theorem BinaryOperator.eq_symbol {t : Token} {operator : BinaryOperator}
    (h : BinaryOperator.ofToken? t = some operator) : t = .symbol operator.symbol := by
  cases t with
  | symbol s => cases s <;> cases h <;> rfl
  | _ => cases h

/-- A literal says what its token does. -/
theorem Tells.literal {t : Token} {value : Literal} {span : Span}
    (h : Literal.ofToken? t = some value) : Tells [(t, span)] [value.sign] := by
  cases t with
  | number x =>
    cases h
    exact .cons rfl rfl .nil
  | text raw =>
    cases h
    exact .cons rfl ⟨raw, rfl, rfl⟩ .nil
  | word w => cases w <;> cases h <;> exact .cons rfl rfl .nil
  | _ => cases h

/-- The key of an entry and the colon behind it. -/
theorem Tells.key {t : Token} {key : String} {ts : List (Token × Span)} {signs : List Sign}
    {span colon : Span} (hkey : keyOfToken? t = some key) (h : Tells ts signs) :
    Tells ((t, span) :: (.symbol .colon, colon) :: ts)
      (.key key :: .token (.symbol .colon) :: signs) := by
  have ht : t.isYielded = true := by
    cases t with
    | number | text | name => rfl
    | _ => cases hkey
  exact .cons ht hkey (.cons rfl rfl h)

theorem Makes.tells {phrase : Phrase} {ts : List (Token × Span)} (h : Makes phrase ts) :
    Tells ts phrase.yield := by
  -- by induction on the derivation, each token in its turn: brackets of groups and of calls, commas and
  -- semicolons yield nothing, and every other token its own sign
  induction h with
  | literal ht => exact .literal ht
  | identifier => exact .cons rfl rfl .nil
  | group _ ih => exact .skip rfl (.concat_skip ih rfl)
  | array _ ih => exact .cons rfl rfl (.concat ih rfl rfl)
  | object _ ih => exact .cons rfl rfl (.concat ih rfl rfl)
  | member _ ih => exact .append ih (.cons rfl rfl (.cons rfl rfl .nil))
  | index _ _ ih ihi => exact .append ih (.cons rfl rfl (.concat ihi rfl rfl))
  | call _ _ ih ihes => exact .append ih (.skip rfl (.concat_skip ihes rfl))
  | @unary _ _ _ operator _ _ ht _ _ ih =>
    -- the operator tells the token, which is the sign
    obtain rfl := UnaryOperator.eq_token ht
    exact .cons (by cases operator <;> rfl) rfl ih
  | @binary _ _ _ operator _ _ _ _ ht _ _ _ ihl ihr =>
    obtain rfl := BinaryOperator.eq_symbol ht
    exact .append ihl (.cons (by cases operator <;> rfl) rfl ihr)
  | conditional _ _ _ ihc iha ihb =>
    exact .append ihc (.cons rfl rfl (.append iha (.cons rfl rfl ihb)))
  | assign _ ih => exact .cons rfl rfl (.cons rfl rfl ih)
  | noItems => exact .nil
  -- the yield of a list is that of its items in order, so the last item yields at the end
  | leadingItem _ _ ihes ihx =>
    rw [Phrase.yield, yieldOfAll_append, yieldOfAll, yieldOfAll, List.append_nil]
    exact .append ihes (.concat_skip ihx rfl)
  | itemsEnd _ ih => exact ih
  | lastItem _ _ ihes ihx =>
    rw [Phrase.yield, yieldOfAll_append, yieldOfAll, yieldOfAll, List.append_nil]
    exact .append ihes ihx
  | noEntries => exact .nil
  | leadingEntry _ hkey _ ihes ihx =>
    rw [Phrase.yield, yieldOfEntries_append, yieldOfEntries, yieldOfEntries, List.append_nil]
    exact .append ihes (.key hkey (.concat_skip ihx rfl))
  | entriesEnd _ ih => exact ih
  | lastEntry _ hkey _ ihes ihx =>
    rw [Phrase.yield, yieldOfEntries_append, yieldOfEntries, yieldOfEntries, List.append_nil]
    exact .append ihes (.key hkey ihx)
  | noStatements => exact .nil
  | semicolon _ ih | declareWord _ ih | comma _ ih => exact .concat_skip ih rfl
  | declareName _ ih =>
    rw [Phrase.yield, List.flatMap_append, List.flatMap_singleton]
    exact .concat ih rfl rfl
  | declareValue _ _ ih ihx =>
    rw [Phrase.yield, List.flatMap_append, List.flatMap_singleton]
    exact .append ih (.cons rfl rfl (.cons rfl rfl ihx))
  | programEnded _ ih | programDeclared _ ih => exact ih
  | evaluate _ _ ih ihx =>
    rw [Phrase.yield, List.flatMap_append, List.flatMap_singleton]
    exact .append ih ihx

/-- The tokens of a code text that is read, but for punctuation, are one for one what the statements
say of them. -/
theorem readStatements_yield {code : Slice} {statements : List Statement}
    (h : readStatements code = .ok statements) :
    ∃ tokens, Token.scan code = .ok tokens ∧
      List.Forall₂ Token.Shows ((tokens.map Prod.fst).filter Token.isYielded)
        (statements.flatMap Statement.yield) := by
  obtain ⟨tokens, hscan, hmakes⟩ := readStatements_eq_ok_iff.mp h
  exact ⟨tokens, hscan, hmakes.tells⟩

/-- The name of the declaration and the quoted text come back, and the comma and the brackets of the call
do not. -/
theorem readStatements_yield_declaration :
    readStatements ⟨0, "let a, b = f('x')".toList⟩ =
        .ok [.declare "a" none, .declare "b" (some (.call ⟨11, 17⟩ (.identifier ⟨11, 12⟩ "f")
          [.literal ⟨13, 16⟩ (.text "x")]))] ∧
      ∃ tokens, Token.scan ⟨0, "let a, b = f('x')".toList⟩ = .ok tokens ∧
        List.Forall₂ Token.Shows ((tokens.map Prod.fst).filter Token.isYielded)
          [.token (.name "a"), .token (.name "b"), .token (.symbol .assign), .token (.name "f"),
            .text "x"] :=
  have hread : readStatements ⟨0, "let a, b = f('x')".toList⟩ =
      .ok [.declare "a" none, .declare "b" (some (.call ⟨11, 17⟩ (.identifier ⟨11, 12⟩ "f")
        [.literal ⟨13, 16⟩ (.text "x")]))] := by rfl
  ⟨hread, readStatements_yield hread⟩

end Stencil
