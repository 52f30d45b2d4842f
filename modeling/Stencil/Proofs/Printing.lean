/-
Stencil/Proofs/Printing.lean

Printing expressions.  An expression becomes a row of tokens, with round brackets
only where the level of an operand is below the one that its place demands, and the
tokens are written with one blank between them.  Texts and the keys of objects are
quoted, with a backslash in front of every backslash and every quote.

What an expression says without its places is `bare`.
-/
import Stencil.Expression
import Stencil.Expression.Read

namespace Stencil

/-! ### Without places -/

mutual

/-- The expression with all its places forgotten. -/
def Expression.bare : Expression → Expression
  | .literal _ value => .literal default value
  | .identifier _ name => .identifier default name
  | .array _ items => .array default (bareAll items)
  | .object _ entries => .object default (bareEntries entries)
  | .member _ object property => .member default object.bare property
  | .index _ object index => .index default object.bare index.bare
  | .call _ callee arguments => .call default callee.bare (bareAll arguments)
  | .unary _ operator operand => .unary default operator operand.bare
  | .binary _ operator left right => .binary default operator left.bare right.bare
  | .conditional _ condition consequent alternative =>
    .conditional default condition.bare consequent.bare alternative.bare
  | .assign _ name value => .assign default name value.bare

/-- Expressions with all their places forgotten. -/
def bareAll : List Expression → List Expression
  | [] => []
  | e :: es => e.bare :: bareAll es

/-- The entries of an object with all places forgotten. -/
def bareEntries : List (String × Expression) → List (String × Expression)
  | [] => []
  | (key, e) :: entries => (key, e.bare) :: bareEntries entries

end

/-! ### What can be printed -/

/-- A name that is no reserved word. -/
def IsFreeName (name : String) : Prop :=
  Text.isName name.toList = true ∧ Word.ofSpelling? name.toList = none

instance (name : String) : Decidable (IsFreeName name) :=
  inferInstanceAs (Decidable (_ ∧ _))

/-- A whole number that every double up to it tells apart. -/
def IsSmallWhole (x : Float) : Prop := ∃ n < 2 ^ 53, x = Number.ofNat n

mutual

/-- Numbers are whole and not negative, and names are free. -/
def Expression.Printable : Expression → Prop
  | .literal _ (.number x) => IsSmallWhole x
  | .literal _ _ => True
  | .identifier _ name => IsFreeName name
  | .array _ items => PrintableAll items
  | .object _ entries => PrintableEntries entries
  | .member _ object property => object.Printable ∧ IsFreeName property
  | .index _ object index => object.Printable ∧ index.Printable
  | .call _ callee arguments => callee.Printable ∧ PrintableAll arguments
  | .unary _ _ operand => operand.Printable
  | .binary _ _ left right => left.Printable ∧ right.Printable
  | .conditional _ condition consequent alternative =>
    condition.Printable ∧ consequent.Printable ∧ alternative.Printable
  | .assign _ name value => IsFreeName name ∧ value.Printable

/-- All of the expressions can be printed. -/
def PrintableAll : List Expression → Prop
  | [] => True
  | e :: es => e.Printable ∧ PrintableAll es

/-- The values of all entries can be printed. -/
def PrintableEntries : List (String × Expression) → Prop
  | [] => True
  | (_, e) :: entries => e.Printable ∧ PrintableEntries entries

end

/-! ### Tokens -/

/-- A text between quotes: a backslash stands in front of every backslash and every quote. -/
def quoteText (quote : Char) (text : List Char) : List Char :=
  text.flatMap fun c => if c = '\\' ∨ c = quote then ['\\', c] else [c]

/-- One of the two quotes. -/
def IsQuote (quote : Char) : Prop := quote = '\'' ∨ quote = '"'

/-- Resolving the escapes of a quoted text gives the text back. -/
theorem unescape_quoteText {quote : Char} (h : IsQuote quote) (text : List Char) :
    unescape (quoteText quote text) = text := by
  induction text with
  | nil => rfl
  | cons c text ih =>
    rw [quoteText, List.flatMap_cons]
    by_cases hc : c = '\\' ∨ c = quote
    · have hletter : unescapeLetter c = c := by
        rcases hc with rfl | rfl
        · rfl
        · rcases h with rfl | rfl <;> rfl
      rw [if_pos hc]
      show unescapeLetter c :: unescape (quoteText quote text) = c :: text
      rw [hletter, ih]
    · have hplain : ∀ cs, unescape (c :: cs) = c :: unescape cs := by
        intro cs
        cases cs <;> simp [unescape, (not_or.mp hc).1]
      rw [if_neg hc, List.singleton_append, hplain]
      exact congrArg (c :: ·) ih

/-- The token of a text. -/
def textToken (quote : Char) (text : String) : Token :=
  .text (String.ofList (quoteText quote text.toList))

/-- The token of a literal. -/
def Literal.token (quote : Char) : Literal → Token
  | .number x => .number x
  | .text t => textToken quote t
  | .bool true => .word .trueWord
  | .bool false => .word .falseWord
  | .null => .word .nullWord
  | .undefined => .word .undefinedWord

/-- The token of an operator in front of its operand. -/
def UnaryOperator.token : UnaryOperator → Token
  | .not => .symbol .not
  | .negate => .symbol .minus
  | .plus => .symbol .plus
  | .typeOf => .word .typeofWord

/-- The symbol of an operator between its operands. -/
def BinaryOperator.symbol : BinaryOperator → Symbol
  | .multiply => .asterisk
  | .divide => .slash
  | .remainder => .percent
  | .add => .plus
  | .subtract => .minus
  | .less => .less
  | .lessOrEqual => .lessOrEqual
  | .greater => .greater
  | .greaterOrEqual => .greaterOrEqual
  | .equal => .equal
  | .notEqual => .notEqual
  | .strictEqual => .strictEqual
  | .strictNotEqual => .strictNotEqual
  | .and => .and
  | .or => .or

/-- How tightly an expression holds together: conditionals and assignments least, what stands behind
a point or in brackets most. -/
def Expression.level : Expression → Nat
  | .conditional .. | .assign .. => 0
  | .binary _ operator _ _ => operator.level
  | .unary .. => 9
  | _ => 10

/-- The tokens of an operand of some level in a place that demands `least`. -/
def bracketed (least level : Nat) (tokens : List Token) : List Token :=
  if least ≤ level then tokens else .opening .round :: (tokens ++ [.closing .round])

mutual

/-- The tokens of an expression. -/
def Expression.tokens (quote : Char) : Expression → List Token
  | .literal _ value => [value.token quote]
  | .identifier _ name => [.name name]
  | .array _ items => .opening .square :: (tokensOfItems quote items ++ [.closing .square])
  | .object _ entries => .opening .curly :: (tokensOfEntries quote entries ++ [.closing .curly])
  | .member _ object property =>
    bracketed 10 object.level (object.tokens quote) ++ [.symbol .dot, .name property]
  | .index _ object index =>
    bracketed 10 object.level (object.tokens quote) ++
      (.opening .square :: (index.tokens quote ++ [.closing .square]))
  | .call _ callee arguments =>
    bracketed 10 callee.level (callee.tokens quote) ++
      (.opening .round :: (tokensOfItems quote arguments ++ [.closing .round]))
  | .unary _ operator operand =>
    operator.token :: bracketed 9 operand.level (operand.tokens quote)
  | .binary _ operator left right =>
    bracketed operator.level left.level (left.tokens quote) ++
      (.symbol operator.symbol ::
        bracketed (operator.level + 1) right.level (right.tokens quote))
  | .conditional _ condition consequent alternative =>
    bracketed 3 condition.level (condition.tokens quote) ++
      (.symbol .question :: (consequent.tokens quote ++
        (.symbol .colon :: alternative.tokens quote)))
  | .assign _ name value => .name name :: .symbol .assign :: value.tokens quote

/-- The tokens of expressions with commas between them. -/
def tokensOfItems (quote : Char) : List Expression → List Token
  | [] => []
  | e :: es =>
    e.tokens quote ++ (if es.isEmpty then [] else .symbol .comma :: tokensOfItems quote es)

/-- The tokens of the entries of an object with commas between them. -/
def tokensOfEntries (quote : Char) : List (String × Expression) → List Token
  | [] => []
  | (key, e) :: entries =>
    textToken quote key :: .symbol .colon :: (e.tokens quote ++
      (if entries.isEmpty then [] else .symbol .comma :: tokensOfEntries quote entries))

end

/-! ### Spelling -/

/-- How a token is printed. -/
def Token.spell (quote : Char) : Token → List Char
  | .opening b => [b.opener]
  | .closing b => [b.closer]
  | .number x => Number.digitsOf (Number.toInt x).toNat
  | .text raw => quote :: (raw.toList ++ [quote])
  | .name n => n.toList
  | .word w => w.spelling
  | .symbol s => s.spelling

/-- The text of an expression: its tokens with a blank between them. -/
def Expression.print (quote : Char) (e : Expression) : List Char :=
  [' '].intercalate ((e.tokens quote).map (Token.spell quote))

end Stencil
