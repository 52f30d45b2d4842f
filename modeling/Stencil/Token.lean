/-
Stencil/Token.lean

The tokens of the expression language: brackets, numbers, quoted texts, names,
reserved words and symbols.  A quoted text keeps its escapes; what it says is
`unescape` of it.
-/
import Stencil.Number.Reading
import Stencil.Span

namespace Stencil

/-- The three pairs of brackets. -/
inductive Bracket where
  | round
  | square
  | curly
deriving DecidableEq, Repr

/-- The words that are not names. -/
inductive Word where
  | trueWord
  | falseWord
  | nullWord
  | undefinedWord
  | typeofWord
  /-- Any of the three words that begin a declaration. -/
  | declareWord
deriving DecidableEq, Repr

/-- The symbols other than brackets. -/
inductive Symbol where
  | strictEqual
  | strictNotEqual
  | equal
  | notEqual
  | greaterOrEqual
  | lessOrEqual
  | and
  | or
  | greater
  | less
  | not
  | plus
  | minus
  | asterisk
  | slash
  | percent
  | dot
  | comma
  | colon
  | semicolon
  | question
  | assign
deriving DecidableEq, Repr

/-- A token. -/
inductive Token where
  | opening (bracket : Bracket)
  | closing (bracket : Bracket)
  | number (value : Float)
  /-- What stands between the quotes, escapes untouched. -/
  | text (raw : String)
  | name (name : String)
  | word (word : Word)
  | symbol (symbol : Symbol)
deriving DecidableEq

/-- Opening brackets. -/
def Bracket.opener : Bracket → Char
  | .round => '('
  | .square => '['
  | .curly => '\x7b'

/-- Closing brackets. -/
def Bracket.closer : Bracket → Char
  | .round => ')'
  | .square => ']'
  | .curly => '\x7d'

/-- The bracket that a character opens. -/
def Bracket.ofOpener? (c : Char) : Option Bracket :=
  [Bracket.round, .square, .curly].find? fun b => b.opener == c

/-- The bracket that a character closes. -/
def Bracket.ofCloser? (c : Char) : Option Bracket :=
  [Bracket.round, .square, .curly].find? fun b => b.closer == c

/-- Every symbol, the longer ones first, so that none hides behind its own beginning. -/
def Symbol.all : List Symbol :=
  [.strictEqual, .strictNotEqual, .equal, .notEqual, .greaterOrEqual, .lessOrEqual, .and, .or,
   .greater, .less, .not, .plus, .minus, .asterisk, .slash, .percent, .dot, .comma, .colon,
   .semicolon, .question, .assign]

/-- How a symbol is written. -/
def Symbol.spelling : Symbol → List Char
  | .strictEqual => ['=', '=', '=']
  | .strictNotEqual => ['!', '=', '=']
  | .equal => ['=', '=']
  | .notEqual => ['!', '=']
  | .greaterOrEqual => ['>', '=']
  | .lessOrEqual => ['<', '=']
  | .and => ['&', '&']
  | .or => ['|', '|']
  | .greater => ['>']
  | .less => ['<']
  | .not => ['!']
  | .plus => ['+']
  | .minus => ['-']
  | .asterisk => ['*']
  | .slash => ['/']
  | .percent => ['%']
  | .dot => ['.']
  | .comma => [',']
  | .colon => [':']
  | .semicolon => [';']
  | .question => ['?']
  | .assign => ['=']

/-- The reserved words; three of them begin a declaration. -/
def Word.ofSpelling? (name : List Char) : Option Word :=
  [("true", Word.trueWord), ("false", .falseWord), ("null", .nullWord),
   ("undefined", .undefinedWord), ("typeof", .typeofWord), ("let", .declareWord),
   ("var", .declareWord), ("const", .declareWord)].lookup (String.ofList name)

/-- How a reserved word is shown. -/
def Word.spelling : Word → List Char
  | .trueWord => "true".toList
  | .falseWord => "false".toList
  | .nullWord => "null".toList
  | .undefinedWord => "undefined".toList
  | .typeofWord => "typeof".toList
  | .declareWord => "let".toList

/-- Numbers in tokens are shown at their places, however long that is. -/
def tokenLayout : Number.Layout := { positional := fun _ => true, infinity := "inf".toList }

/-- How a token is shown. -/
def Token.display : Token → List Char
  | .opening b => [b.opener]
  | .closing b => [b.closer]
  | .number x => tokenLayout.write x
  | .text raw => '\'' :: raw.toList ++ ['\'']
  | .name n => n.toList
  | .word w => w.spelling
  | .symbol s => s.spelling

/-- The character that a letter behind a backslash stands for. -/
def unescapeLetter : Char → Char
  | 'n' => '\n'
  | 'r' => '\r'
  | 't' => '\t'
  | 'b' => '\x08'
  | 'f' => '\x0c'
  | 'v' => '\x0b'
  | '0' => '\x00'
  | c => c

/-- What a quoted text says: a backslash and the character behind it stand for one character; a
backslash at the very end stands for nothing. -/
def unescape : List Char → List Char
  | [] => []
  | '\\' :: c :: cs => unescapeLetter c :: unescape cs
  | c :: cs => if c = '\\' then unescape cs else c :: unescape cs

end Stencil
