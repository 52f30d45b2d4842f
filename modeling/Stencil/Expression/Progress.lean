/-
Stencil/Expression/Progress.lean

Reading statements from tokens, one token at a time.  What has been read is held as
a stack of the constructs that are still open, innermost first, and what is
awaited next; `step` says what a token does to it.

An operand that has been read waits on the stack for what follows it.  A postfix
form takes it at once, since nothing binds tighter; an operator between operands
first closes the operators on the stack that bind at least as tightly
(`closeOperators`); a closing bracket, a separator or the end closes every
operator, assignment and conditional down to the construct that it belongs to
(`closeAll`).

The grammar needs no second look at a token, and every state that `step` reaches can
be completed to a program.  So the first token for which there is no step is the first
one with which no program can go on.
-/
import Stencil.Expression

namespace Stencil

/-- An operand that has been read, and the bytes it takes up with the round brackets around it. -/
structure Operand where
  value : Expression
  extent : Span

/-- A construct that is still open. -/
inductive OpenConstruct where
  | unary (start : Nat) (operator : UnaryOperator)
  | binary (left : Operand) (operator : BinaryOperator)
  | group (start : Nat)
  /-- Items are held last first. -/
  | array (start : Nat) (items : List Expression)
  /-- The value of `key` is awaited; entries are held last first. -/
  | object (start : Nat) (entries : List (String × Expression)) (key : String)
  | index (object : Operand)
  /-- Arguments are held last first. -/
  | call (callee : Operand) (arguments : List Expression)
  /-- Behind the question mark. -/
  | consequent (condition : Operand)
  /-- Behind the colon. -/
  | alternative (condition : Operand) (consequent : Expression)
  | assign (start : Nat) (name : String)
  /-- The value of a declaration. -/
  | declare (name : String)

/-- What is awaited next. -/
inductive Awaited where
  /-- An expression; at the bottom of the stack a statement or nothing. -/
  | expression
  /-- An operand behind an operator, which cannot be an assignment. -/
  | operand
  /-- What follows an operand; `assignable` if it is a name that an expression began with. -/
  | continuation (operand : Operand) (assignable : Bool)
  | property (object : Operand)
  /-- A key of an object, or its end. -/
  | key (start : Nat) (entries : List (String × Expression))
  | colon (start : Nat) (entries : List (String × Expression)) (key : String)
  /-- A name to be declared. -/
  | declarator
  /-- What follows a name to be declared. -/
  | declared (name : String)

/-- What has been read: finished statements, last first, the open constructs and what is awaited. -/
structure Progress where
  statements : List Statement
  opened : List OpenConstruct
  awaited : Awaited

namespace Progress

/-- Nothing has been read. -/
def start : Progress := ⟨[], [], .expression⟩

end Progress

/-- From the start of one construct to the end of another. -/
def Operand.over (start : Nat) (last : Operand) (build : Span → Expression) : Operand :=
  let span : Span := ⟨start, last.extent.stop⟩
  ⟨build span, span⟩

/-- An operand that ends with the token at `last`. -/
def Operand.upTo (start : Nat) (last : Span) (build : Span → Expression) : Operand :=
  let span : Span := ⟨start, last.stop⟩
  ⟨build span, span⟩

/-- Closes the operators in front of `operand` that bind at least at `level`; the ones in front of a
single operand bind tighter than any level. -/
def closeOperators (level : Nat) : List OpenConstruct → Operand → List OpenConstruct × Operand
  | .unary start operator :: opened, operand =>
    closeOperators level opened
      (operand.over start fun span => .unary span operator operand.value)
  | .binary left operator :: opened, operand =>
    if level ≤ operator.level then
      closeOperators level opened
        (operand.over left.extent.start fun span => .binary span operator left.value operand.value)
    else (.binary left operator :: opened, operand)
  | opened, operand => (opened, operand)

/-- Closes the operators, conditionals and assignments in front of `operand`. -/
def closeAll : List OpenConstruct → Operand → List OpenConstruct × Operand
  | .unary start operator :: opened, operand =>
    closeAll opened (operand.over start fun span => .unary span operator operand.value)
  | .binary left operator :: opened, operand =>
    closeAll opened
      (operand.over left.extent.start fun span => .binary span operator left.value operand.value)
  | .alternative condition consequent :: opened, operand =>
    closeAll opened
      (operand.over condition.extent.start fun span =>
        .conditional span condition.value consequent operand.value)
  | .assign start name :: opened, operand =>
    closeAll opened (operand.over start fun span => .assign span name operand.value)
  | opened, operand => (opened, operand)

namespace Progress

/-- Opens a construct in which an expression is awaited. -/
def push (p : Progress) (construct : OpenConstruct) : Progress :=
  { p with opened := construct :: p.opened, awaited := .expression }

/-- Goes on behind an operand. -/
def behind (p : Progress) (opened : List OpenConstruct) (operand : Operand) : Progress :=
  { p with opened := opened, awaited := .continuation operand false }

/-- Finishes a statement. -/
def finish (p : Progress) (statement : Statement) : Progress :=
  { statements := statement :: p.statements, opened := [], awaited := .expression }

/-- The step of a token at which an operand may begin; `assignable` if a name there may be assigned
to. -/
def beginOperand (p : Progress) (assignable : Bool) (token : Token) (span : Span) :
    Option Progress :=
  match Literal.ofToken? token, UnaryOperator.ofToken? token, token with
  | some literal, _, _ => some (p.behind p.opened ⟨.literal span literal, span⟩)
  | _, some operator, _ =>
    some { p with opened := .unary span.start operator :: p.opened, awaited := .operand }
  | _, _, .name n =>
    some { p with awaited := .continuation ⟨.identifier span n, span⟩ assignable }
  | _, _, .opening .round => some (p.push (.group span.start))
  | _, _, .opening .square => some (p.push (.array span.start []))
  | _, _, .opening .curly => some { p with awaited := .key span.start [] }
  | _, _, _ => none

/-- The step of a token where an expression is awaited. -/
def atExpression (p : Progress) (token : Token) (span : Span) : Option Progress :=
  match p.opened, token with
  | [], .symbol .semicolon => some p
  | [], .word .declareWord => some { p with awaited := .declarator }
  | .array start items :: opened, .closing .square =>
    some (p.behind opened (.upTo start span fun s => .array s items.reverse))
  | .call callee arguments :: opened, .closing .round =>
    some (p.behind opened
      (.upTo callee.extent.start span fun s => .call s callee.value arguments.reverse))
  | _, _ => p.beginOperand true token span

/-- The step of a token that ends the expression with which `operand` ends. -/
def atClosing (p : Progress) (operand : Operand) (token : Token) (span : Span) : Option Progress :=
  let (opened, whole) := closeAll p.opened operand
  match opened, token with
  | [], .symbol .semicolon => some (p.finish (.evaluate whole.value))
  | [.declare name], .symbol .semicolon => some (p.finish (.declare name (some whole.value)))
  | [.declare name], .symbol .comma =>
    some { p.finish (.declare name (some whole.value)) with awaited := .declarator }
  | .group start :: opened, .closing .round =>
    some (p.behind opened ⟨whole.value, ⟨start, span.stop⟩⟩)
  | .array start items :: opened, .symbol .comma =>
    some { p with opened := .array start (whole.value :: items) :: opened, awaited := .expression }
  | .array start items :: opened, .closing .square =>
    some (p.behind opened (.upTo start span fun s => .array s (whole.value :: items).reverse))
  | .object start entries key :: opened, .symbol .comma =>
    some { p with opened := opened, awaited := .key start ((key, whole.value) :: entries) }
  | .object start entries key :: opened, .closing .curly =>
    some (p.behind opened
      (.upTo start span fun s => .object s ((key, whole.value) :: entries).reverse))
  | .index object :: opened, .closing .square =>
    some (p.behind opened
      (.upTo object.extent.start span fun s => .index s object.value whole.value))
  | .call callee arguments :: opened, .symbol .comma =>
    some
      { p with
        opened := .call callee (whole.value :: arguments) :: opened
        awaited := .expression }
  | .call callee arguments :: opened, .closing .round =>
    some (p.behind opened
      (.upTo callee.extent.start span fun s =>
        .call s callee.value (whole.value :: arguments).reverse))
  | .consequent condition :: opened, .symbol .colon =>
    some
      { p with
        opened := .alternative condition whole.value :: opened
        awaited := .expression }
  | _, _ => none

/-- The step of a token behind an operand. -/
def atContinuation (p : Progress) (operand : Operand) (assignable : Bool) (token : Token)
    (span : Span) : Option Progress :=
  match BinaryOperator.ofToken? token, token, assignable, operand.value with
  | some operator, _, _, _ =>
    let (opened, left) := closeOperators operator.level p.opened operand
    some { p with opened := .binary left operator :: opened, awaited := .operand }
  | none, .symbol .dot, _, _ => some { p with awaited := .property operand }
  | none, .opening .square, _, _ => some (p.push (.index operand))
  | none, .opening .round, _, _ => some (p.push (.call operand []))
  | none, .symbol .question, _, _ =>
    let (opened, condition) := closeOperators 0 p.opened operand
    some { p with opened := .consequent condition :: opened, awaited := .expression }
  | none, .symbol .assign, true, .identifier _ name =>
    some (p.push (.assign operand.extent.start name))
  | none, _, _, _ => p.atClosing operand token span

/-- What a token does to what has been read, if a program can go on with it. -/
def step (p : Progress) (token : Token) (span : Span) : Option Progress :=
  match p.awaited with
  | .expression => p.atExpression token span
  | .operand => p.beginOperand false token span
  | .continuation operand assignable => p.atContinuation operand assignable token span
  | .property object =>
    match token with
    | .name n =>
      some (p.behind p.opened
        (.upTo object.extent.start span fun s => .member s object.value n))
    | _ => none
  | .key start entries =>
    match token with
    | .closing .curly =>
      some (p.behind p.opened (.upTo start span fun s => .object s entries.reverse))
    | _ => (keyOfToken? token).map fun key => { p with awaited := .colon start entries key }
  | .colon start entries key =>
    match token with
    | .symbol .colon => some (p.push (.object start entries key))
    | _ => none
  | .declarator =>
    match token with
    | .name n => some { p with awaited := .declared n }
    | _ => none
  | .declared name =>
    match token with
    | .symbol .assign => some (p.push (.declare name))
    | .symbol .comma => some { p.finish (.declare name none) with awaited := .declarator }
    | .symbol .semicolon => some (p.finish (.declare name none))
    | _ => none

/-- The statements, if all that was begun can end here. -/
def done? (p : Progress) : Option (List Statement) :=
  match p.awaited, p.opened with
  | .expression, [] => some p.statements.reverse
  | .declared name, [] => some (p.finish (.declare name none)).statements.reverse
  | .continuation operand _, opened =>
    match closeAll opened operand with
    | ([], whole) => some (p.finish (.evaluate whole.value)).statements.reverse
    | ([.declare name], whole) =>
      some (p.finish (.declare name (some whole.value))).statements.reverse
    | _ => none
  | _, _ => none

/-- Reads the tokens in order; the fault is the place of the first one with which no program can go on,
or `stop` if more tokens are needed. -/
def readAll (stop : Span) (p : Progress) : List (Token × Span) → Except Span (List Statement)
  | [] =>
    match p.done? with
    | some statements => .ok statements
    | none => .error stop
  | (token, span) :: rest =>
    match p.step token span with
    | some next => readAll stop next rest
    | none => .error span

end Progress

end Stencil
