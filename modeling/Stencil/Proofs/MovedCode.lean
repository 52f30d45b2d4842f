/-
Stencil/Proofs/MovedCode.lean

Reading code further back in a source.  A token never asks where it stands: a step
copies starts and ends from the tokens into the operands and open constructs
(`Progress.step_moved`), so the statements, expressions and argument lists of moved
code are those of the code, moved.  An argument list is read with a bracket in the
byte before it, and there is such a byte wherever one is read
(`splitCall?_start_pos`).

The main result, `classify_moved`: a directive that stands further back is the same
directive, or has the same fault, further back.
-/
import Stencil.Template
import Stencil.Proofs.Moving
import Stencil.Proofs.Places

namespace Stencil

variable {k : Nat}

/-! ### Reading tokens -/

/-- The same operand `k` bytes further back. -/
def Operand.moved (k : Nat) (x : Operand) : Operand := ⟨x.value.moved k, x.extent.moved k⟩

/-- The same open construct `k` bytes further back. -/
def OpenConstruct.moved (k : Nat) : OpenConstruct → OpenConstruct
  | .unary start operator => .unary (k + start) operator
  | .binary left operator => .binary (left.moved k) operator
  | .group start => .group (k + start)
  | .array start items => .array (k + start) (items.map (·.moved k))
  | .object start entries key => .object (k + start) (entries.map (movedEntry k)) key
  | .index owner => .index (owner.moved k)
  | .call callee arguments => .call (callee.moved k) (arguments.map (·.moved k))
  | .consequent condition => .consequent (condition.moved k)
  | .alternative condition first => .alternative (condition.moved k) (first.moved k)
  | .assign start name => .assign (k + start) name
  | .declare name => .declare name

/-- The same expectation `k` bytes further back. -/
def Awaited.moved (k : Nat) : Awaited → Awaited
  | .expression => .expression
  | .operand => .operand
  | .continuation x assignable => .continuation (x.moved k) assignable
  | .property owner => .property (owner.moved k)
  | .key start entries => .key (k + start) (entries.map (movedEntry k))
  | .colon start entries name => .colon (k + start) (entries.map (movedEntry k)) name
  | .declarator => .declarator
  | .declared name => .declared name

/-- The same progress `k` bytes further back. -/
def Progress.moved (k : Nat) (p : Progress) : Progress :=
  ⟨p.statements.map (·.moved k), p.opened.map (·.moved k), p.awaited.moved k⟩

theorem closeOperators_moved (level : Nat) (opened : List OpenConstruct) (operand : Operand) :
    closeOperators level (opened.map (·.moved k)) (operand.moved k) =
      Prod.map (List.map (·.moved k)) (·.moved k) (closeOperators level opened operand) := by
  induction opened generalizing operand with
  | nil => rfl
  | cons c opened ih =>
    cases c with
    | unary start operator => exact ih (operand.over start fun span => .unary span operator operand.value)
    | binary left operator =>
      rw [List.map_cons, OpenConstruct.moved, closeOperators, closeOperators]
      split
      · exact ih (operand.over left.extent.start fun span => .binary span operator left.value operand.value)
      · rfl
    | _ => rfl

theorem closeAll_moved (opened : List OpenConstruct) (operand : Operand) :
    closeAll (opened.map (·.moved k)) (operand.moved k) =
      Prod.map (List.map (·.moved k)) (·.moved k) (closeAll opened operand) := by
  induction opened generalizing operand with
  | nil => rfl
  | cons c opened ih =>
    cases c with
    | unary start operator =>
      exact ih (operand.over start fun span => .unary span operator operand.value)
    | binary left operator =>
      exact ih (operand.over left.extent.start fun span =>
        .binary span operator left.value operand.value)
    | alternative condition consequent =>
      exact ih (operand.over condition.extent.start fun span =>
        .conditional span condition.value consequent operand.value)
    | assign start name =>
      exact ih (operand.over start fun span => .assign span name operand.value)
    | _ => rfl

/-! ### Operands that end with a bracket -/

theorem Operand.upTo_array_moved (start : Nat) (items : List Expression) (last : Span) :
    Operand.upTo (k + start) (last.moved k) (fun s => .array s (items.map (·.moved k)).reverse) =
      (Operand.upTo start last fun s => .array s items.reverse).moved k := by
  simp [upTo, Operand.moved, Expression.moved, movedAll_eq, Span.moved]

theorem Operand.upTo_object_moved (start : Nat) (entries : List (String × Expression)) (last : Span) :
    Operand.upTo (k + start) (last.moved k)
        (fun s => .object s (entries.map (movedEntry k)).reverse) =
      (Operand.upTo start last fun s => .object s entries.reverse).moved k := by
  simp [upTo, Operand.moved, Expression.moved, movedEntries_eq, Span.moved]

theorem Operand.upTo_call_moved (callee : Operand) (arguments : List Expression) (last : Span) :
    Operand.upTo (k + callee.extent.start) (last.moved k)
        (fun s => .call s (callee.value.moved k) (arguments.map (·.moved k)).reverse) =
      (Operand.upTo callee.extent.start last fun s =>
        .call s callee.value arguments.reverse).moved k := by
  simp [upTo, Operand.moved, Expression.moved, movedAll_eq, Span.moved]

namespace Progress

/-- Going on behind a moved operand. -/
theorem behind_moved (p : Progress) (opened : List OpenConstruct) {x x' : Operand}
    (h : x' = x.moved k) :
    some ((p.moved k).behind (opened.map (·.moved k)) x') =
      (some (p.behind opened x)).map (·.moved k) := by
  rw [h]
  rfl

theorem beginOperand_moved (p : Progress) (assignable : Bool) (token : Token) (span : Span) :
    (p.moved k).beginOperand assignable token (span.moved k) =
      (p.beginOperand assignable token span).map (·.moved k) := by
  cases token with
  | opening b => cases b <;> rfl
  | word w => cases w <;> rfl
  | symbol s => cases s <;> rfl
  | _ => rfl

theorem atExpression_moved (p : Progress) (token : Token) (span : Span) :
    (p.moved k).atExpression token (span.moved k) =
      (p.atExpression token span).map (·.moved k) := by
  obtain ⟨statements, opened, awaited⟩ := p
  have hbegin := beginOperand_moved (k := k) ⟨statements, opened, awaited⟩ true token span
  -- only at the bottom of the stack, in an array and in a call an expression may be left out
  rcases opened with - | ⟨c, opened⟩
  · cases token with
    | word w => cases w <;> rfl
    | symbol s => cases s <;> rfl
    | _ => exact hbegin
  · cases c with
    | array start items =>
      cases token with
      | closing b =>
        cases b with
        | square => exact behind_moved _ opened (Operand.upTo_array_moved start items span)
        | _ => exact hbegin
      | _ => exact hbegin
    | call callee arguments =>
      cases token with
      | closing b =>
        cases b with
        | round => exact behind_moved _ opened (Operand.upTo_call_moved callee arguments span)
        | _ => exact hbegin
      | _ => exact hbegin
    | _ => exact hbegin

theorem atClosing_moved (p : Progress) (operand : Operand) (token : Token) (span : Span) :
    (p.moved k).atClosing (operand.moved k) token (span.moved k) =
      (p.atClosing operand token span).map (·.moved k) := by
  have hopened : (p.moved k).opened = p.opened.map (·.moved k) := rfl
  rw [atClosing, atClosing, hopened, closeAll_moved]
  obtain ⟨opened, whole⟩ := closeAll p.opened operand
  -- no case looks at a place: it is told by the innermost construct and the kind of the token, and the
  -- places go along
  rcases opened with - | ⟨c, opened⟩
  · cases token with
    | symbol s => cases s <;> rfl
    | _ => rfl
  cases c with
  | declare =>
    rcases opened with - | ⟨c, opened⟩
    · cases token with
      | symbol s => cases s <;> rfl
      | _ => rfl
    · cases token <;> rfl
  | array start items =>
    cases token with
    | closing b =>
      cases b with
      -- a construct that ends here is made with the place of the token, so moving it needs a lemma
      | square => exact behind_moved p opened (Operand.upTo_array_moved start (whole.value :: items) span)
      | _ => rfl
    | symbol s => cases s <;> rfl
    | _ => rfl
  | object start entries key =>
    cases token with
    | closing b =>
      cases b with
      | curly =>
        exact behind_moved p opened (Operand.upTo_object_moved start ((key, whole.value) :: entries) span)
      | _ => rfl
    | symbol s => cases s <;> rfl
    | _ => rfl
  | call callee arguments =>
    cases token with
    | closing b =>
      cases b with
      | round =>
        exact behind_moved p opened (Operand.upTo_call_moved callee (whole.value :: arguments) span)
      | _ => rfl
    | symbol s => cases s <;> rfl
    | _ => rfl
  | group | index | consequent =>
    cases token with
    | closing b => cases b <;> rfl
    | symbol s => cases s <;> rfl
    | _ => rfl
  | _ => cases token <;> rfl

theorem atContinuation_moved (p : Progress) (operand : Operand) (assignable : Bool) (token : Token)
    (span : Span) :
    (p.moved k).atContinuation (operand.moved k) assignable token (span.moved k) =
      (p.atContinuation operand assignable token span).map (·.moved k) := by
  have hclosing := atClosing_moved (k := k) p operand token span
  have hopened : (p.moved k).opened = p.opened.map (·.moved k) := rfl
  rcases hoperator : BinaryOperator.ofToken? token with - | operator
  · cases token with
    | opening b => cases b <;> first | rfl | exact hclosing
    | symbol s =>
      cases s with
      | question =>
        simp only [atContinuation, BinaryOperator.ofToken?, hopened, closeOperators_moved]
        rfl
      | assign =>
        obtain ⟨value, extent⟩ := operand
        cases assignable <;> cases value <;> first | rfl | exact hclosing
      | _ => first | rfl | exact hclosing | cases hoperator
    | _ => exact hclosing
  · simp only [atContinuation, hoperator, hopened, closeOperators_moved]
    rfl

/-- Tokens that stand further back do the same to what has been read further back. -/
theorem step_moved (p : Progress) (token : Token) (span : Span) :
    (p.moved k).step token (span.moved k) = (p.step token span).map (·.moved k) := by
  obtain ⟨statements, opened, awaited⟩ := p
  cases awaited with
  | expression => exact atExpression_moved ⟨statements, opened, .expression⟩ token span
  | operand => exact beginOperand_moved ⟨statements, opened, .operand⟩ false token span
  | continuation x assignable =>
    exact atContinuation_moved ⟨statements, opened, .continuation x assignable⟩ x assignable token span
  | property owner => cases token <;> rfl
  | key start entries =>
    cases token with
    | closing b =>
      cases b with
      | curly => exact behind_moved _ opened (Operand.upTo_object_moved start entries span)
      | _ => rfl
    | _ => rfl
  | colon start entries key =>
    cases token with
    | symbol s => cases s <;> rfl
    | _ => rfl
  | declarator => cases token <;> rfl
  | declared name =>
    cases token with
    | symbol s => cases s <;> rfl
    | _ => rfl

theorem done?_moved (p : Progress) :
    (p.moved k).done? = p.done?.map (List.map (·.moved k)) := by
  have hreverse (s : Statement) (statements : List Statement) :
      some (s.moved k :: statements.map (·.moved k)).reverse =
        (some (s :: statements).reverse).map (List.map (·.moved k)) := by
    simp
  obtain ⟨statements, opened, awaited⟩ := p
  cases awaited with
  | expression =>
    cases opened with
    | nil => exact congrArg some List.map_reverse.symm
    | cons c opened => rfl
  | declared name =>
    cases opened with
    | nil => exact hreverse (.declare name none) statements
    | cons c opened => rfl
  | continuation x assignable =>
    simp only [done?, Progress.moved, Awaited.moved, closeAll_moved]
    obtain ⟨closed, whole⟩ := closeAll opened x
    rcases closed with - | ⟨c, - | ⟨c', closed⟩⟩
    · exact hreverse (.evaluate whole.value) statements
    · cases c with
      | declare name => exact hreverse (.declare name (some whole.value)) statements
      | _ => rfl
    · cases c <;> rfl
  | _ => rfl

theorem readAll_moved (stop : Span) (p : Progress) (tokens : List (Token × Span)) :
    (p.moved k).readAll (stop.moved k) (tokens.map (movedToken k)) =
      carry (Span.moved k) (List.map (·.moved k)) (p.readAll stop tokens) := by
  induction tokens generalizing p with
  | nil =>
    rw [List.map_nil, readAll, readAll, done?_moved]
    rcases p.done? with - | statements <;> rfl
  | cons token tokens ih =>
    obtain ⟨token, span⟩ := token
    rw [List.map_cons, movedToken, Prod.map_apply, readAll, readAll, id, step_moved]
    rcases p.step token span with - | next
    · rfl
    · exact ih next

end Progress
/-! ### Reading code -/

theorem readStatements_moved (code : Slice) :
    readStatements (code.moved k) =
      carry (CompileFault.moved k) (List.map (·.moved k)) (readStatements code) := by
  have hread : (Token.scan (code.moved k) >>= Progress.start.readAll (.at (code.moved k).stop)) =
      carry (Span.moved k) (List.map (·.moved k))
        (Token.scan code >>= Progress.start.readAll (.at code.stop)) := by
    rw [Token.scan_moved, Slice.stop_moved]
    exact carry_bind _ fun tokens => Progress.readAll_moved (.at code.stop) .start tokens
  rw [readStatements, readStatements]
  simp only [hread]
  rcases Token.scan code >>= Progress.start.readAll (.at code.stop) with span | statements <;> rfl

theorem readExpression_moved (code : Slice) :
    readExpression (code.moved k) =
      carry (CompileFault.moved k) (·.moved k) (readExpression code) := by
  rw [readExpression, readExpression, readStatements_moved, Slice.span_moved]
  refine carry_bind _ fun statements => ?_
  rcases statements with - | ⟨s, - | ⟨s', statements⟩⟩
  · rfl
  all_goals cases s <;> rfl

theorem readArguments_moved {code : Slice} (h : 0 < code.start) :
    readArguments (code.moved k) =
      carry (CompileFault.moved k) (List.map (·.moved k)) (readArguments code) := by
  have hbefore : (⟨(code.moved k).start - 1, '[' :: code.chars ++ [']']⟩ : Slice) =
      (⟨code.start - 1, '[' :: code.chars ++ [']']⟩ : Slice).moved k := by
    rw [Slice.moved, Slice.moved, Nat.add_sub_assoc h]
  rw [readArguments, readArguments, Slice.chars_moved, hbefore, readExpression_moved,
    Slice.span_moved]
  split
  · rfl
  · refine carry_bind _ fun whole => ?_
    cases whole with
    | array span items => exact congrArg Except.ok (movedAll_eq k items)
    | _ => rfl

/-! ### Directives -/

/-- The same directive `k` bytes further back. -/
def Directive.moved (k : Nat) : Directive → Directive
  | .ifThen condition => .ifThen (condition.moved k)
  | .elseIf condition => .elseIf (condition.moved k)
  | .otherwise => .otherwise
  | .endIf => .endIf
  | .forEach item collection => .forEach item (collection.moved k)
  | .forEachElse => .forEachElse
  | .forEachBreak => .forEachBreak
  | .endForEach => .endForEach
  | .define name parameters => .define name parameters
  | .endDefine => .endDefine
  | .run name arguments => .run name (arguments.map (·.moved k))
  | .output form value => .output form (value.moved k)
  | .statements listed => .statements (listed.map (·.moved k))

theorem OutputKind.split_moved (kind : OutputKind) (rest : Slice) (whole : Span) :
    kind.split (rest.moved k) (whole.moved k) =
      carry (CompileFault.moved k) (Prod.map id (Slice.moved k)) (kind.split rest whole) := by
  cases kind with
  | plain form => rfl
  | array =>
    rw [OutputKind.split, OutputKind.split, Slice.chars_moved]
    rcases Text.splitFirst? ['|'] rest.chars with - | ⟨code, separator⟩ <;> rfl
  | truncate =>
    rw [OutputKind.split, OutputKind.split, Slice.chars_moved]
    rcases Text.splitLast? '|' rest.chars with - | ⟨code, length⟩
    · rfl
    · simp only
      split <;> rfl

theorem classifyOutput?_moved (body : Slice) :
    classifyOutput? (body.moved k) = (classifyOutput? body).map (Prod.map id (Slice.moved k)) := by
  rw [classifyOutput?, classifyOutput?, List.map_findSome?]
  congr 1
  funext ⟨sign, kind⟩
  simp only [Slice.after?_moved, Function.comp_apply, Option.map_map]
  rfl

theorem splitCall?_moved (rest : Slice) :
    splitCall? (rest.moved k) = (splitCall? rest).map (Prod.map id (Slice.moved k)) := by
  rw [splitCall?, splitCall?, Slice.trimStart_moved, Slice.splitName?_moved]
  refine map_bind_moved _ fun found => ?_
  obtain ⟨name, behind⟩ := found
  simp only [Prod.map_apply, Slice.trimStart_moved, Slice.after?_moved]
  refine map_bind_moved _ fun opened => ?_
  rw [Slice.trimEnd_moved, Slice.before?_moved]
  exact map_bind_moved _ fun inner => rfl

/-- A bracket stands in front of the arguments of a call. -/
theorem splitCall?_start_pos {rest inner : Slice} {name : String}
    (h : splitCall? rest = some (name, inner)) : 0 < inner.start := by
  obtain ⟨behind, opened, -, hopened, hinner⟩ := splitCall?_cases h
  have hafter : opened.start = behind.trimStart.start + 1 := (Slice.chars_of_after? hopened).2
  have hinside : inner.start = opened.start := (Slice.chars_of_before? hinner).2
  omega

theorem splitLoop?_moved (rest : Slice) :
    splitLoop? (rest.moved k) = (splitLoop? rest).map (Prod.map id (Slice.moved k)) := by
  rw [splitLoop?, splitLoop?, Slice.trim_moved, Slice.after?_moved]
  refine map_bind_moved _ fun opened => ?_
  rw [Slice.before?_moved]
  refine map_bind_moved _ fun inner => ?_
  rw [Slice.trimStart_moved, Slice.splitName?_moved]
  refine map_bind_moved _ fun found => ?_
  obtain ⟨item, behind⟩ := found
  simp only [Prod.map_apply, Slice.chars_moved, Slice.trimStart_moved, Slice.afterWord?_moved]
  split
  · rfl
  · refine map_bind_moved _ fun collection => ?_
    rw [Slice.chars_moved]
    split <;> rfl

theorem readCondition_moved (rest : Slice) (whole : Span) :
    readCondition (rest.moved k) (whole.moved k) =
      carry (CompileFault.moved k) (·.moved k) (readCondition rest whole) := by
  rw [readCondition, readCondition, Slice.trimStart_moved, Slice.chars_moved, readExpression_moved]
  split <;> rfl

theorem afterElseIf?_moved (trimmed : Slice) :
    afterElseIf? (trimmed.moved k) = (afterElseIf? trimmed).map (·.moved k) := by
  simp only [afterElseIf?, Slice.afterWord?_moved]
  rcases trimmed.afterWord? "elseif".toList with - | rest
  · rcases trimmed.afterWord? "else".toList with - | rest
    · rfl
    · simp
  · rfl

theorem Directive.ofWord?_moved {chars : List Char} {d : Directive}
    (h : Directive.ofWord? chars = some d) : d.moved k = d := by
  rcases Directive.ofWord?_cases h with rfl | rfl | rfl | rfl | rfl | rfl <;> rfl

/-- A directive that stands further back is the same one, and has the same fault, further back. -/
theorem classify_moved (body : Slice) :
    classify (body.moved k) = carry (CompileFault.moved k) (·.moved k) (classify body) := by
  unfold classify
  simp only [classifyOutput?_moved, Slice.span_moved, Slice.trim_moved, Slice.chars_moved,
    Slice.afterWord?_moved, afterElseIf?_moved, readStatements_moved]
  -- the words are looked for in this order, and the first one that is found decides
  rcases classifyOutput? body with - | ⟨kind, rest⟩
  case some =>
    simp only [Option.map_some, Prod.map_apply, OutputKind.split_moved, id]
    refine carry_bind _ fun parted => ?_
    obtain ⟨form, code⟩ := parted
    simp only [Prod.map_apply, readExpression_moved]
    exact carry_bind _ fun value => rfl
  rcases body.trim.afterWord? "foreach".toList with - | rest
  case some =>
    simp only [Option.map_some, Option.map_none, splitLoop?_moved]
    rcases splitLoop? rest with - | ⟨item, collection⟩
    · rfl
    · simp only [Option.map_some, Prod.map_apply, readExpression_moved]
      exact carry_bind _ fun value => rfl
  rcases hword : Directive.ofWord? body.trim.chars with - | directive
  case some => exact congrArg Except.ok (Directive.ofWord?_moved hword).symm
  rcases body.trim.afterWord? "if".toList with - | rest
  case some =>
    simp only [Option.map_some, Option.map_none, readCondition_moved]
    exact carry_bind _ fun value => rfl
  rcases afterElseIf? body.trim with - | rest
  case some =>
    simp only [Option.map_some, Option.map_none, readCondition_moved]
    exact carry_bind _ fun value => rfl
  rcases body.trim.afterWord? "define".toList with - | rest
  case some =>
    simp only [Option.map_some, Option.map_none, splitCall?_moved]
    rcases splitCall? rest with - | ⟨name, inner⟩
    · rfl
    · have hsame : readParameters? (inner.moved k) = readParameters? inner := rfl
      simp only [Option.map_some, Prod.map_apply, hsame]
      rcases readParameters? inner with - | parameters <;> rfl
  rcases body.trim.afterWord? "run".toList with - | rest
  case some =>
    simp only [Option.map_some, Option.map_none, splitCall?_moved]
    rcases hcall : splitCall? rest with - | ⟨name, inner⟩
    · rfl
    · simp only [Option.map_some, Prod.map_apply, readArguments_moved (splitCall?_start_pos hcall)]
      exact carry_bind _ fun arguments => rfl
  exact carry_bind _ fun statements => rfl

/-! ### Segments -/

/-- The same segment `k` bytes further back. -/
def Segment.moved (k : Nat) : Segment → Segment
  | .literal text => .literal (text.moved k)
  | .directive body => .directive (body.moved k)

/-- The same piece `k` bytes further back. -/
def Item.moved (k : Nat) : Item → Item
  | .text chars => .text chars
  | .directive taken span => .directive (taken.moved k) (span.moved k)

theorem Item.ofSegment_moved (part : Segment) :
    Item.ofSegment (part.moved k) =
      carry (CompileFault.moved k) (·.moved k) (Item.ofSegment part) := by
  cases part with
  | literal text => rfl
  | directive body =>
    rw [Segment.moved, Item.ofSegment, Item.ofSegment, classify_moved, Slice.span_moved]
    exact carry_bind _ fun directive => rfl

/-- A row of segments that stands further back has the same pieces further back. -/
theorem mapM_ofSegment_moved (parts : List Segment) :
    (parts.map (·.moved k)).mapM Item.ofSegment =
      carry (CompileFault.moved k) (List.map (·.moved k)) (parts.mapM Item.ofSegment) := by
  induction parts with
  | nil => rfl
  | cons part parts ih =>
    rw [List.map_cons, List.mapM_cons, List.mapM_cons, Item.ofSegment_moved]
    refine carry_bind _ fun item => ?_
    rw [ih]
    exact carry_bind _ fun items => rfl

end Stencil
