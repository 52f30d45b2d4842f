/-
Stencil/Expression.lean

The expressions and statements of directives, each with the bytes of the source
that it takes up: from the start of its first to the end of its last token.
Round brackets leave no trace in an expression, but what stands around them
counts them in.
-/
import Stencil.Number.Decimal
import Stencil.Token

namespace Stencil

/-- The values that are written out in an expression. -/
inductive Literal where
  | number (value : Float)
  | text (value : String)
  | bool (value : Bool)
  | null
  | undefined
deriving DecidableEq

/-- The operators that stand in front of their operand. -/
inductive UnaryOperator where
  | not
  | negate
  | plus
  | typeOf
deriving DecidableEq, Repr

/-- The operators that stand between their operands. -/
inductive BinaryOperator where
  | multiply
  | divide
  | remainder
  | add
  | subtract
  | less
  | lessOrEqual
  | greater
  | greaterOrEqual
  | equal
  | notEqual
  | strictEqual
  | strictNotEqual
  | and
  | or
deriving DecidableEq, Repr

/-- How tightly an operator binds; operators of one level group from the left. -/
def BinaryOperator.level : BinaryOperator → Nat
  | .multiply | .divide | .remainder => 8
  | .add | .subtract => 7
  | .less | .lessOrEqual | .greater | .greaterOrEqual => 6
  | .equal | .notEqual | .strictEqual | .strictNotEqual => 5
  | .and => 4
  | .or => 3

/-- An expression and its place. -/
inductive Expression where
  | literal (span : Span) (value : Literal)
  | identifier (span : Span) (name : String)
  | array (span : Span) (items : List Expression)
  /-- The keys stay as they are written, also where one comes twice. -/
  | object (span : Span) (entries : List (String × Expression))
  | member (span : Span) (object : Expression) (property : String)
  | index (span : Span) (object index : Expression)
  | call (span : Span) (callee : Expression) (arguments : List Expression)
  | unary (span : Span) (operator : UnaryOperator) (operand : Expression)
  | binary (span : Span) (operator : BinaryOperator) (left right : Expression)
  | conditional (span : Span) (condition consequent alternative : Expression)
  | assign (span : Span) (name : String) (value : Expression)
deriving Inhabited

/-- The bytes of the source that an expression takes up. -/
def Expression.span : Expression → Span
  | .literal span _ | .identifier span _ | .array span _ | .object span _ | .member span _ _
  | .index span _ _ | .call span _ _ | .unary span _ _ | .binary span _ _ _
  | .conditional span _ _ _ | .assign span _ _ => span

/-- One of the parts of a directive that semicolons separate. -/
inductive Statement where
  /-- Binds a name in the scope at hand. -/
  | declare (name : String) (value : Option Expression)
  | evaluate (value : Expression)

/-- The operator in front of an operand that a token stands for. -/
def UnaryOperator.ofToken? : Token → Option UnaryOperator
  | .symbol .not => some .not
  | .symbol .minus => some .negate
  | .symbol .plus => some .plus
  | .word .typeofWord => some .typeOf
  | _ => none

/-- The operator between operands that a token stands for. -/
def BinaryOperator.ofToken? : Token → Option BinaryOperator
  | .symbol .asterisk => some .multiply
  | .symbol .slash => some .divide
  | .symbol .percent => some .remainder
  | .symbol .plus => some .add
  | .symbol .minus => some .subtract
  | .symbol .less => some .less
  | .symbol .lessOrEqual => some .lessOrEqual
  | .symbol .greater => some .greater
  | .symbol .greaterOrEqual => some .greaterOrEqual
  | .symbol .equal => some .equal
  | .symbol .notEqual => some .notEqual
  | .symbol .strictEqual => some .strictEqual
  | .symbol .strictNotEqual => some .strictNotEqual
  | .symbol .and => some .and
  | .symbol .or => some .or
  | _ => none

/-- The literal that a token stands for. -/
def Literal.ofToken? : Token → Option Literal
  | .number value => some (.number value)
  | .text raw => some (.text (String.ofList (unescape raw.toList)))
  | .word .trueWord => some (.bool true)
  | .word .falseWord => some (.bool false)
  | .word .nullWord => some .null
  | .word .undefinedWord => some .undefined
  | _ => none

/-- The key of an object entry that a token stands for. -/
def keyOfToken? : Token → Option String
  | .name n => some n
  | .text raw => some (String.ofList (unescape raw.toList))
  | .number value => some (numberText value)
  | _ => none

end Stencil
