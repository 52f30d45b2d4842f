/-
Stencil/Token/Scan.lean

From text to tokens.  `Token.read` looks at the head of a text that does not start
with white space and takes the token there, as long as it can be; `Token.scan`
does so from token to token.

Where no token can be read, the fault lies at the first character that no other
continuation of the text before it could save: the character itself, or the one
behind a lone `&` or `|`, or, where a quoted text is still open, the end.
-/
import Stencil.Token

namespace Stencil

/-- What stands at the head of a text: a token and the number of its characters, or the number of
characters that some token might still begin with. -/
inductive Reading where
  | token (t : Token) (length : Nat)
  | stuck (reach : Nat)

namespace Token

/-- What stands before the closing `quote`, escapes untouched. -/
def takeQuoted? (quote : Char) : List Char → Option (List Char)
  | [] => none
  | '\\' :: c :: cs => (takeQuoted? quote cs).map fun raw => '\\' :: c :: raw
  | c :: cs => if c = quote then some [] else (takeQuoted? quote cs).map (c :: ·)

/-- Splits off the whole part of a number: a single zero, or digits that do not start with one. -/
def takeWhole : List Char → List Char × List Char
  | '0' :: cs => (['0'], cs)
  | cs => Number.takeDigits cs

/-- What is left behind the number at the head of a text.  A point counts only if a digit follows, and
an exponent only if it is whole. -/
def afterNumber? (cs : List Char) : Option (List Char) :=
  let (whole, rest) := takeWhole cs
  let (fraction, behind) := Number.takeFraction rest
  let rest := if fraction.isEmpty then rest else behind
  if whole.isEmpty && fraction.isEmpty then none else some (Number.takeExponent rest).2

/-- The number at the head of a text. -/
def readNumber? (cs : List Char) : Option (Token × Nat) :=
  (afterNumber? cs).map fun rest =>
    let length := cs.length - rest.length
    (.number ((Number.readNumeral? (cs.take length)).getD 0.0), length)

/-- The name or reserved word at the head of a text. -/
def readName? (cs : List Char) : Option (Token × Nat) :=
  (Text.splitName? cs).map fun (letters, _) =>
    match Word.ofSpelling? letters with
    | some w => (.word w, letters.length)
    | none => (.name (String.ofList letters), letters.length)

/-- The symbol at the head of a text. -/
def readSymbol? (cs : List Char) : Option (Token × Nat) :=
  (Symbol.all.find? fun s => s.spelling.isPrefixOf cs).map fun s => (.symbol s, s.spelling.length)

/-- The bracket at the head of a text. -/
def readBracket? : List Char → Option (Token × Nat)
  | [] => none
  | c :: _ =>
    match Bracket.ofOpener? c, Bracket.ofCloser? c with
    | some b, _ => some (.opening b, 1)
    | none, some b => some (.closing b, 1)
    | none, none => none

/-- The token at the head of a text.  A number goes before a symbol because it may begin with a
point. -/
def read : List Char → Reading
  | [] => .stuck 0
  | c :: cs =>
    if c = '\'' ∨ c = '"' then
      match takeQuoted? c cs with
      | some raw => .token (.text (String.ofList raw)) (raw.length + 2)
      | none => .stuck (cs.length + 1)
    else
      match readBracket? (c :: cs) <|> readNumber? (c :: cs) <|> readName? (c :: cs)
          <|> readSymbol? (c :: cs) with
      | some (t, length) => .token t length
      | none => .stuck (if c = '&' ∨ c = '|' then 1 else 0)

/-- The walk behind `scan`: `skip` characters still belong to the token that was read last. -/
def scanFrom (skip offset : Nat) : List Char → Except Span (List (Token × Span))
  | [] => .ok []
  | c :: cs =>
    let next := offset + c.utf8Size
    match skip with
    | skip + 1 => scanFrom skip next cs
    | 0 =>
      if isBlank c then scanFrom 0 next cs
      else
        match read (c :: cs) with
        | .token t length => do
          let rest ← scanFrom (length - 1) next cs
          .ok ((t, ⟨offset, offset + Text.bytes ((c :: cs).take length)⟩) :: rest)
        | .stuck reach => .error ((⟨offset, c :: cs⟩ : Slice).drop reach).head

/-- The tokens of a code text with their places, or the place where no token can be read. -/
def scan (code : Slice) : Except Span (List (Token × Span)) := scanFrom 0 code.start code.chars

end Token

end Stencil
