/-
Stencil/Directive/Classify.lean

Telling from the body of a directive what it is.  An output form is known by what
stands right behind the delimiter, so its sign must come first in the body; all
other directives are known by their first word, white space around the body not
counting, and a body that begins with none of these words holds statements.
-/
import Stencil.Directive
import Stencil.Expression.Read

namespace Stencil

/-- The kinds of output forms: those that are fixed by their sign alone, and those that take a
parameter behind a bar. -/
inductive OutputKind where
  | plain (form : OutputForm)
  | array
  | truncate
deriving DecidableEq, Repr

/-- The signs of the output forms.  The first one that the body begins with counts. -/
def outputSigns : List (String × OutputKind) :=
  [(":func=", .plain .html), (":func-", .plain .raw), (":h=", .plain .html), (":=", .plain .raw),
   (":u=", .plain .url), (":v=", .plain .eventAttribute), (":a=", .array), (":m=", .plain .money),
   (":s=", .truncate), (":p=", .plain .protocol), ("=", .plain .default), ("-", .plain .raw)]

/-- What separates the items of an array where the directive does not say. -/
def defaultSeparator : String := "<br>"

/-- The output form and the code of the value, from what stands behind the sign.  The separator of an
array begins at the first bar, the length of a cut at the last one. -/
def OutputKind.split (kind : OutputKind) (rest : Slice) (whole : Span) :
    Except CompileFault (OutputForm × Slice) :=
  match kind with
  | .plain form => .ok (form, rest)
  | .array =>
    match Text.splitFirst? ['|'] rest.chars with
    | some (code, separator) =>
      .ok (.array (String.ofList separator), { rest with chars := code })
    | none => .ok (.array defaultSeparator, rest)
  | .truncate =>
    match Text.splitLast? '|' rest.chars with
    | some (code, length) =>
      let digits := Text.dropTrailing (· == ';') (Text.trimBlank length)
      match Number.readIndex? digits with
      | some n => .ok (.truncate n, { rest with chars := code })
      | none => .error (.malformed .lengthNotWhole whole)
    | none => .error (.malformed .lengthMissing whole)

/-- A name, a bracket, and what stands between it and the bracket at the end. -/
def splitCall? (rest : Slice) : Option (String × Slice) := do
  let (name, behind) ← rest.trimStart.splitName?
  let opened ← behind.trimStart.after? ['(']
  let inner ← opened.trimEnd.before? ')'
  some (name, inner)

theorem splitCall?_cases {rest inner : Slice} {name : String}
    (h : splitCall? rest = some (name, inner)) :
    ∃ behind opened, rest.trimStart.splitName? = some (name, behind) ∧
      behind.trimStart.after? ['('] = some opened ∧ opened.trimEnd.before? ')' = some inner := by
  simp only [splitCall?, Option.bind_eq_bind, Option.bind_eq_some_iff, Prod.exists] at h
  obtain ⟨name', behind, hname, opened, hopened, inner', hinner, heq⟩ := h
  obtain ⟨rfl, rfl⟩ : name' = name ∧ inner' = inner := by simpa using heq
  exact ⟨behind, opened, hname, hopened, hinner⟩

/-- An item, the word `in` with white space on both sides, and the code of the collection. -/
def splitLoop? (rest : Slice) : Option (String × Slice) := do
  let opened ← rest.trim.after? ['(']
  let inner ← opened.before? ')'
  let (item, behind) ← inner.trimStart.splitName?
  if !behind.chars.head?.any isBlank then none
  let collection ← behind.trimStart.afterWord? ['i', 'n']
  if !collection.chars.head?.any isBlank then none
  some (item, collection)

/-- The parameters that a definition lists; empty places between the commas do not count. -/
def readParameters? (inner : Slice) : Option (List String) :=
  let parts := (Text.splitAll [','] inner.chars).map Text.trimBlank
  let names := parts.filter fun part => !part.isEmpty
  if names.all Text.isName then some (names.map String.ofList) else none

/-- The code of a condition, which stands in round brackets. -/
def readCondition (rest : Slice) (whole : Span) : Except CompileFault Expression :=
  if rest.trimStart.chars.head? = some '(' then readExpression rest
  else .error (.malformed .conditionNotBracketed whole)

/-- The directives that consist of one word. -/
def Directive.ofWord? (body : List Char) : Option Directive :=
  [(DirectiveWord.forEachElse, Directive.forEachElse), (.forEachBreak, .forEachBreak),
   (.endForEach, .endForEach), (.elseWord, .otherwise), (.endIf, .endIf),
   (.endDefine, .endDefine)].findSome? fun (word, directive) =>
    if body = word.spelling.toList then some directive else none

theorem Directive.ofWord?_cases {body : List Char} {d : Directive} (h : Directive.ofWord? body = some d) :
    d = .forEachElse ∨ d = .forEachBreak ∨ d = .endForEach ∨ d = .otherwise ∨ d = .endIf ∨
      d = .endDefine := by
  obtain ⟨⟨word, taken⟩, hword, htaken⟩ := List.exists_of_findSome?_eq_some h
  obtain ⟨-, rfl⟩ : body = word.spelling.toList ∧ taken = d := by simpa using htaken
  simp only [List.mem_cons, Prod.mk.injEq, List.not_mem_nil, or_false] at hword
  rcases hword with ⟨-, h⟩ | ⟨-, h⟩ | ⟨-, h⟩ | ⟨-, h⟩ | ⟨-, h⟩ | ⟨-, h⟩ <;> simp [h]

/-- The output form of a body that begins with the sign of one. -/
def classifyOutput? (body : Slice) : Option (OutputKind × Slice) :=
  outputSigns.findSome? fun (sign, kind) =>
    (body.after? sign.toList).map fun rest => (kind, rest)

/-- What stands behind `elseif` or `else if`. -/
def afterElseIf? (trimmed : Slice) : Option Slice :=
  match trimmed.afterWord? "elseif".toList with
  | some rest => some rest
  | none =>
    match trimmed.afterWord? "else".toList with
    | some rest => rest.trimStart.afterWord? "if".toList
    | none => none

/-- What a directive is, from its body. -/
def classify (body : Slice) : Except CompileFault Directive := do
  let malformed {α : Type} (word : DirectiveWord) : Except CompileFault α :=
    .error (.malformed (.malformed word) body.span)
  if let some (kind, rest) := classifyOutput? body then
    let (form, code) ← kind.split rest body.span
    return .output form (← readExpression code)
  let trimmed := body.trim
  if let some rest := trimmed.afterWord? "foreach".toList then
    match splitLoop? rest with
    | some (item, collection) => return .forEach item (← readExpression collection)
    | none => malformed .forEachWord
  else if let some directive := Directive.ofWord? trimmed.chars then
    return directive
  else if let some rest := trimmed.afterWord? "if".toList then
    return .ifThen (← readCondition rest body.span)
  else if let some rest := afterElseIf? trimmed then
    return .elseIf (← readCondition rest body.span)
  else if let some rest := trimmed.afterWord? "define".toList then
    match splitCall? rest with
    | some (name, inner) =>
      match readParameters? inner with
      | some parameters => return .define name parameters
      | none => malformed .defineWord
    | none => malformed .defineWord
  else if let some rest := trimmed.afterWord? "run".toList then
    match splitCall? rest with
    | some (name, inner) => return .run name (← readArguments inner)
    | none => malformed .runWord
  else
    return .statements (← readStatements body)

/-- What a body comes to, directive by directive: the code that the directive is made from, or that the
word which the body begins with has not behind it what it needs. -/
inductive Classified (body : Slice) : Except CompileFault Directive → Prop
  | output {kind : OutputKind} {rest : Slice} :
      classifyOutput? body = some (kind, rest) →
      Classified body (kind.split rest body.span >>= fun part =>
        readExpression part.2 >>= fun value => pure (.output part.1 value))
  | forEach {rest collection : Slice} {item : String} :
      body.trim.afterWord? "foreach".toList = some rest →
      splitLoop? rest = some (item, collection) →
      Classified body (readExpression collection >>= fun e => pure (.forEach item e))
  /-- The directive consists of one word. -/
  | word {directive : Directive} :
      Directive.ofWord? body.trim.chars = some directive → Classified body (pure directive)
  | ifThen {rest : Slice} :
      body.trim.afterWord? "if".toList = some rest →
      Classified body (readCondition rest body.span >>= fun e => pure (.ifThen e))
  | elseIf {rest : Slice} :
      afterElseIf? body.trim = some rest →
      Classified body (readCondition rest body.span >>= fun e => pure (.elseIf e))
  | define {rest inner : Slice} {name : String} {parameters : List String} :
      body.trim.afterWord? "define".toList = some rest →
      splitCall? rest = some (name, inner) → readParameters? inner = some parameters →
      Classified body (pure (.define name parameters))
  | run {rest inner : Slice} {name : String} :
      body.trim.afterWord? "run".toList = some rest →
      splitCall? rest = some (name, inner) →
      Classified body (readArguments inner >>= fun es => pure (.run name es))
  | statements : Classified body (readStatements body >>= fun ss => pure (.statements ss))
  | malformed (word : DirectiveWord) :
      Classified body (.error (.malformed (.malformed word) body.span))

theorem classify_cases (body : Slice) : Classified body (classify body) := by
  unfold classify
  split
  · next houtput => exact .output houtput
  extract_lets malformed trimmed
  split
  · next hforEach =>
    split
    · next hsplit => exact .forEach hforEach hsplit
    · exact .malformed _
  split
  · next hword => exact .word hword
  split
  · next hif => exact .ifThen hif
  split
  · next helse => exact .elseIf helse
  split
  · next hdefine =>
    split
    · next hsplit =>
      split
      · next hparameters => exact .define hdefine hsplit hparameters
      · exact .malformed _
    · exact .malformed _
  split
  · next hrun =>
    split
    · next hsplit => exact .run hrun hsplit
    · exact .malformed _
  · exact .statements

end Stencil
