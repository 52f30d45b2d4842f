/-
Stencil/Proofs/Recognizing.lean

What is read from tokens, the grammar derives from them.  The tokens that were read
leave a stack of open constructs and something that is awaited; `Open` derives the stack
from the tokens in front of the operand that comes next, together with the level that
is demanded of this operand, and `Holds` adds the tokens of what was read since.

The level tells what closing does.  An operator on the stack demands that its operand
binds tighter, and everything else demands nothing; so where the operators down to some
level are closed, the operand that this makes up may stand to the left of an operator of
that level, and what is left demands no higher one (`Open.closeOperators`).

A token keeps `Holds` up (`Holds.step`), and the main result, `makes_of_readAll`, follows
by induction on the tokens.
-/
import Stencil.Proofs.Grammar
import Stencil.Proofs.Parsing

namespace Stencil

/-! ### Open constructs -/

/-- `Open statements level opened ts`: the tokens leave behind the finished statements, last first,
and the open constructs, and an operand comes next of which `level` is demanded. -/
inductive Open (statements : List Statement) : Nat → List OpenConstruct → List (Token × Span) → Prop
  | bottom {ts : List (Token × Span)} :
      Makes (.ended statements.reverse) ts → Open statements 0 [] ts
  | declare {n : String} {ts : List (Token × Span)} {span sign : Span} :
      Makes (.declaring statements.reverse) ts →
      Open statements 0 [.declare n] (ts ++ [(.name n, span), (.symbol .assign, sign)])
  | unary {level : Nat} {opened : List OpenConstruct} {ts : List (Token × Span)} {t : Token}
      {span : Span} {operator : UnaryOperator} :
      Open statements level opened ts → UnaryOperator.ofToken? t = some operator → level ≤ 9 →
      Open statements 9 (.unary span.start operator :: opened) (ts ++ [(t, span)])
  | binary {level : Nat} {opened : List OpenConstruct} {ts us : List (Token × Span)} {t : Token}
      {span : Span} {operator : BinaryOperator} {l : Operand} :
      Open statements level opened ts → BinaryOperator.ofToken? t = some operator →
      Makes (.operand operator.level l) us → level ≤ operator.level →
      Open statements (operator.level + 1) (.binary l operator :: opened)
        (ts ++ (us ++ [(t, span)]))
  | group {level : Nat} {opened : List OpenConstruct} {ts : List (Token × Span)} {first : Span} :
      Open statements level opened ts →
      Open statements 0 (.group first.start :: opened) (ts ++ [(.opening .round, first)])
  | array {level : Nat} {opened : List OpenConstruct} {ts us : List (Token × Span)} {first : Span}
      {es : List Expression} :
      Open statements level opened ts → Makes (.leadingItems es.reverse) us →
      Open statements 0 (.array first.start es :: opened) (ts ++ (.opening .square, first) :: us)
  | object {level : Nat} {opened : List OpenConstruct} {ts us : List (Token × Span)} {t : Token}
      {key : String} {first span colon : Span} {es : List (String × Expression)} :
      Open statements level opened ts → Makes (.leadingEntries es.reverse) us →
      keyOfToken? t = some key →
      Open statements 0 (.object first.start es key :: opened)
        (ts ++ (.opening .curly, first) :: (us ++ [(t, span), (.symbol .colon, colon)]))
  | index {level : Nat} {opened : List OpenConstruct} {ts us : List (Token × Span)} {first : Span}
      {x : Operand} :
      Open statements level opened ts → Makes (.operand 10 x) us →
      Open statements 0 (.index x :: opened) (ts ++ (us ++ [(.opening .square, first)]))
  | call {level : Nat} {opened : List OpenConstruct} {ts us vs : List (Token × Span)} {first : Span}
      {x : Operand} {es : List Expression} :
      Open statements level opened ts → Makes (.operand 10 x) us →
      Makes (.leadingItems es.reverse) vs →
      Open statements 0 (.call x es :: opened) (ts ++ (us ++ (.opening .round, first) :: vs))
  | consequent {opened : List OpenConstruct} {ts us : List (Token × Span)} {question : Span}
      {c : Operand} :
      Open statements 0 opened ts → Makes (.operand 3 c) us →
      Open statements 0 (.consequent c :: opened) (ts ++ (us ++ [(.symbol .question, question)]))
  | alternative {opened : List OpenConstruct} {ts us vs : List (Token × Span)}
      {question colon : Span} {c a : Operand} :
      Open statements 0 opened ts → Makes (.operand 3 c) us → Makes (.operand 0 a) vs →
      Open statements 0 (.alternative c a.value :: opened)
        (ts ++ (us ++ (.symbol .question, question) :: (vs ++ [(.symbol .colon, colon)])))
  | assign {opened : List OpenConstruct} {ts : List (Token × Span)} {first sign : Span}
      {n : String} :
      Open statements 0 opened ts →
      Open statements 0 (.assign first.start n :: opened)
        (ts ++ [(.name n, first), (.symbol .assign, sign)])

namespace Open

variable {statements : List Statement} {level : Nat} {opened : List OpenConstruct}
  {ts us : List (Token × Span)} {x : Operand}

/-- An operator may always stand in front of the operand that comes next. -/
theorem level_le (h : Open statements level opened ts) : level ≤ 9 := by
  cases h with
  | @binary _ _ _ _ _ _ operator =>
    have hlevel := operator.level_le
    omega
  | _ => omega

/-- Closing everything makes up an expression, in a place that demands nothing. -/
theorem closeAll (h : Open statements level opened ts) (hx : Makes (.operand level x) us) :
    ∃ front whole, ts ++ us = front ++ whole ∧
      Open statements 0 (Stencil.closeAll opened x).1 front ∧
      Makes (.operand 0 (Stencil.closeAll opened x).2) whole := by
  -- by induction on the open constructs: what a frame makes of the operand goes into the frame behind
  -- it, so both the operand and its tokens are general
  induction h generalizing x us with
  | unary _ ht hlevel ih =>
    obtain ⟨front, whole, heq, hfront, hwhole⟩ := ih (.unary ht hx hlevel)
    exact ⟨front, whole, by rw [← heq]; simp, hfront, hwhole⟩
  | @binary _ _ _ _ t span _ _ _ ht hl hlevel ih =>
    have hbinary : Makes _ (_ ++ (t, span) :: us) := .binary ht hl hx hlevel
    obtain ⟨front, whole, heq, hfront, hwhole⟩ := ih hbinary
    exact ⟨front, whole, by rw [← heq]; simp, hfront, hwhole⟩
  | @alternative _ _ _ _ question colon _ _ _ hc ha ih =>
    have hconditional : Makes _ (_ ++ (_, question) :: (_ ++ (_, colon) :: us)) :=
      .conditional hc ha hx
    obtain ⟨front, whole, heq, hfront, hwhole⟩ := ih hconditional
    exact ⟨front, whole, by rw [← heq]; simp, hfront, hwhole⟩
  | @assign _ _ first sign n _ ih =>
    have hassign : Makes _ ((.name n, first) :: (_, sign) :: us) := .assign hx
    obtain ⟨front, whole, heq, hfront, hwhole⟩ := ih hassign
    exact ⟨front, whole, by rw [← heq]; simp, hfront, hwhole⟩
  -- every other construct stays open, and demands nothing of what stands in it
  | bottom h => exact ⟨_, us, rfl, .bottom h, hx⟩
  | declare h => exact ⟨_, us, rfl, .declare h, hx⟩
  | group h => exact ⟨_, us, rfl, .group h, hx⟩
  | array h hes => exact ⟨_, us, rfl, .array h hes, hx⟩
  | object h hes hkey => exact ⟨_, us, rfl, .object h hes hkey, hx⟩
  | index h ho => exact ⟨_, us, rfl, .index h ho, hx⟩
  | call h ho hes => exact ⟨_, us, rfl, .call h ho hes, hx⟩
  | consequent h hc => exact ⟨_, us, rfl, .consequent h hc, hx⟩

/-- Closing the operators down to a level makes up an operand of that level, or of a higher one, in a
place that demands no higher level. -/
theorem closeOperators (h : Open statements level opened ts) (upTo : Nat) {bound : Nat}
    (hx : Makes (.operand bound x) us) (hlevel : level ≤ bound) (hupTo : upTo ≤ bound)
    (hbound : 3 ≤ bound) (hle : upTo ≤ 8) :
    ∃ front whole level' bound', ts ++ us = front ++ whole ∧
      Open statements level' (Stencil.closeOperators upTo opened x).1 front ∧
      Makes (.operand bound' (Stencil.closeOperators upTo opened x).2) whole ∧
      level' ≤ upTo ∧ upTo ≤ bound' ∧ 3 ≤ bound' := by
  -- by induction on the open constructs, for every operand that is at least as high as what is demanded
  -- and as what comes next
  induction h generalizing x us bound with
  | unary _ ht hlevel' ih =>
    obtain ⟨front, whole, level', bound', heq, h⟩ :=
      ih (.unary ht (hx.mono hlevel) (Nat.le_refl 9)) hlevel' (by omega) (by omega)
    exact ⟨front, whole, level', bound', by rw [← heq]; simp, h⟩
  | @binary _ _ _ _ t span operator l h ht hl hlevel' ih =>
    -- a closed operator is an operand of its own level, which the place behind it can take; one of a
    -- lower level is kept, so no more is demanded than what comes next allows
    rw [Stencil.closeOperators]
    split
    · next hclose =>
      have hbinary : Makes (.operand operator.level _) (_ ++ (t, span) :: us) :=
        .binary ht hl (hx.mono hlevel) (Nat.le_refl _)
      obtain ⟨front, whole, level', bound', heq, h⟩ := ih hbinary hlevel' hclose operator.level_ge
      exact ⟨front, whole, level', bound', by rw [← heq]; simp, h⟩
    · next hclose =>
      exact ⟨_, us, _, bound, rfl, .binary h ht hl hlevel', hx, by omega, hupTo, hbound⟩
  -- every other construct stays open, and demands nothing
  | bottom h => exact ⟨_, us, 0, bound, rfl, .bottom h, hx, Nat.zero_le _, hupTo, hbound⟩
  | declare h => exact ⟨_, us, 0, bound, rfl, .declare h, hx, Nat.zero_le _, hupTo, hbound⟩
  | group h => exact ⟨_, us, 0, bound, rfl, .group h, hx, Nat.zero_le _, hupTo, hbound⟩
  | array h hes =>
    exact ⟨_, us, 0, bound, rfl, .array h hes, hx, Nat.zero_le _, hupTo, hbound⟩
  | object h hes hkey =>
    exact ⟨_, us, 0, bound, rfl, .object h hes hkey, hx, Nat.zero_le _, hupTo, hbound⟩
  | index h ho =>
    exact ⟨_, us, 0, bound, rfl, .index h ho, hx, Nat.zero_le _, hupTo, hbound⟩
  | call h ho hes =>
    exact ⟨_, us, 0, bound, rfl, .call h ho hes, hx, Nat.zero_le _, hupTo, hbound⟩
  | consequent h hc =>
    exact ⟨_, us, 0, bound, rfl, .consequent h hc, hx, Nat.zero_le _, hupTo, hbound⟩
  | alternative h hc ha =>
    exact ⟨_, us, 0, bound, rfl, .alternative h hc ha, hx, Nat.zero_le _, hupTo, hbound⟩
  | assign h => exact ⟨_, us, 0, bound, rfl, .assign h, hx, Nat.zero_le _, hupTo, hbound⟩

end Open

/-! ### What has been read -/

/-- The tokens leave behind what has been read. -/
inductive Holds : Progress → List (Token × Span) → Prop
  | expression {statements : List Statement} {opened : List OpenConstruct}
      {ts : List (Token × Span)} :
      Open statements 0 opened ts → Holds ⟨statements, opened, .expression⟩ ts
  | operand {statements : List Statement} {level : Nat} {opened : List OpenConstruct}
      {ts : List (Token × Span)} :
      Open statements level opened ts → Holds ⟨statements, opened, .operand⟩ ts
  | continuation {statements : List Statement} {level : Nat} {opened : List OpenConstruct}
      {ts us : List (Token × Span)} {x : Operand} {assignable : Bool} :
      Open statements level opened ts → Makes (.operand 10 x) us →
      (assignable = true →
        level = 0 ∧ ∃ n span, us = [(.name n, span)] ∧ x = ⟨.identifier span n, span⟩) →
      Holds ⟨statements, opened, .continuation x assignable⟩ (ts ++ us)
  | property {statements : List Statement} {level : Nat} {opened : List OpenConstruct}
      {ts us : List (Token × Span)} {x : Operand} {dot : Span} :
      Open statements level opened ts → Makes (.operand 10 x) us →
      Holds ⟨statements, opened, .property x⟩ (ts ++ (us ++ [(.symbol .dot, dot)]))
  | key {statements : List Statement} {level : Nat} {opened : List OpenConstruct}
      {ts us : List (Token × Span)} {first : Span} {es : List (String × Expression)} :
      Open statements level opened ts → Makes (.leadingEntries es.reverse) us →
      Holds ⟨statements, opened, .key first.start es⟩ (ts ++ (.opening .curly, first) :: us)
  | colon {statements : List Statement} {level : Nat} {opened : List OpenConstruct}
      {ts us : List (Token × Span)} {t : Token} {key : String} {first span : Span}
      {es : List (String × Expression)} :
      Open statements level opened ts → Makes (.leadingEntries es.reverse) us →
      keyOfToken? t = some key →
      Holds ⟨statements, opened, .colon first.start es key⟩
        (ts ++ (.opening .curly, first) :: (us ++ [(t, span)]))
  | declarator {statements : List Statement} {ts : List (Token × Span)} :
      Makes (.declaring statements.reverse) ts → Holds ⟨statements, [], .declarator⟩ ts
  | declared {statements : List Statement} {ts : List (Token × Span)} {n : String} {span : Span} :
      Makes (.declaring statements.reverse) ts →
      Holds ⟨statements, [], .declared n⟩ (ts ++ [(.name n, span)])

namespace Holds

variable {p next : Progress} {statements : List Statement} {level : Nat}
  {opened : List OpenConstruct} {awaited : Awaited} {ts us vs : List (Token × Span)} {x : Operand}
  {t : Token} {span : Span}

/-- A single operand has been read. -/
theorem behind (h : Open p.statements level opened ts) (hx : Makes (.operand 10 x) us)
    (heq : ts ++ us = vs) : Holds (p.behind opened x) vs :=
  heq ▸ .continuation h hx nofun

/-- A construct has been opened. -/
theorem push {c : OpenConstruct} (h : Open p.statements 0 (c :: p.opened) ts) (heq : ts = vs) :
    Holds (p.push c) vs :=
  heq ▸ .expression h

theorem start : Holds .start [] := .expression (.bottom .noStatements)

theorem beginOperand {assignable : Bool} (h : Open statements level opened ts)
    (hassignable : assignable = true → level = 0)
    (hstep : Progress.beginOperand ⟨statements, opened, awaited⟩ assignable t span = some next) :
    Holds next (ts ++ [(t, span)]) := by
  rw [Progress.beginOperand.eq_def] at hstep
  split at hstep
  case h_1 hvalue =>
    cases hstep
    exact behind h (.literal hvalue) rfl
  case h_2 ht _ =>
    cases hstep
    exact .operand (h.unary ht h.level_le)
  case h_3 n _ _ =>
    cases hstep
    exact .continuation h .identifier fun ha => ⟨hassignable ha, n, span, rfl, rfl⟩
  case h_4 =>
    cases hstep
    exact .expression h.group
  case h_5 =>
    cases hstep
    exact .expression (h.array .noItems)
  case h_6 =>
    cases hstep
    exact .key h .noEntries
  case h_7 => cases hstep

theorem atExpression (h : Open statements 0 opened ts)
    (hstep : Progress.atExpression ⟨statements, opened, .expression⟩ t span = some next) :
    Holds next (ts ++ [(t, span)]) := by
  rw [Progress.atExpression.eq_def] at hstep
  split at hstep
  -- at the bottom only: a statement or the beginning of a declaration
  case h_1 hopened =>
    cases hstep
    subst hopened
    cases h with
    | bottom h => exact .expression (.bottom (.semicolon (.programEnded h)))
  case h_2 hopened =>
    cases hstep
    subst hopened
    cases h with
    | bottom h => exact .declarator (.declareWord h)
  -- a closing bracket where an item may come ends a list behind its last comma
  case h_3 hopened =>
    cases hstep
    subst hopened
    cases h with
    | @array _ _ ts us first _ h hes =>
      have harray : Makes (.operand 10 _) ((_, first) :: (us ++ [(_, span)])) :=
        .array (.itemsEnd hes)
      exact behind h harray (by simp)
  case h_4 hopened =>
    cases hstep
    subst hopened
    cases h with
    | @call _ _ ts us vs first _ _ h hx hes =>
      have hcall : Makes (.operand 10 _) (us ++ (_, first) :: (vs ++ [(_, span)])) :=
        .call hx (.itemsEnd hes)
      exact behind h hcall (by simp)
  case h_5 => exact beginOperand h (fun _ => rfl) hstep

theorem atClosing (h : Open statements level opened ts) (hx : Makes (.operand level x) us)
    (hstep : Progress.atClosing ⟨statements, opened, awaited⟩ x t span = some next) :
    Holds next (ts ++ us ++ [(t, span)]) := by
  -- all operators are closed first, so that `whole` stands where nothing is demanded
  obtain ⟨front, whole, heq, hfront, hwhole⟩ := h.closeAll hx
  rw [Progress.atClosing.eq_def] at hstep
  rw [heq]
  generalize closeAll opened x = closed at hstep hfront hwhole
  obtain ⟨rest, y⟩ := closed
  simp only at hstep hfront hwhole
  -- the cases are those of the innermost construct and the token that ends it or goes on with it
  split at hstep
  -- the end of a statement: of an expression, or of a declaration whose value has been read
  case h_1 =>
    cases hstep
    cases hfront with
    | bottom h =>
      refine .expression (.bottom ?_)
      simpa using Makes.semicolon (.evaluate h hwhole)
  case h_2 n =>
    cases hstep
    cases hfront with
    | @declare _ front first sign h =>
      have hdeclared : Makes (.declared _) (front ++ (.name n, first) :: (_, sign) :: whole) :=
        .declareValue h hwhole
      refine .expression (.bottom ?_)
      simpa using Makes.semicolon (.programDeclared hdeclared)
  -- a comma goes on with the declaration
  case h_3 n =>
    cases hstep
    cases hfront with
    | @declare _ front first sign h =>
      have hdeclared : Makes (.declared _) (front ++ (.name n, first) :: (_, sign) :: whole) :=
        .declareValue h hwhole
      refine .declarator ?_
      simpa [Progress.finish] using Makes.comma hdeclared
  case h_4 =>
    cases hstep
    cases hfront with
    | @group _ _ front first h =>
      have hgroup : Makes (.operand 10 _) ((_, first) :: (whole ++ [(_, span)])) := .group hwhole
      exact behind h hgroup (by simp)
  -- the lists are kept last item first, and the grammar adds at the end
  case h_5 =>
    cases hstep
    cases hfront with
    | @array _ _ front us first es h hes =>
      have hitem : Makes (.leadingItems _) (us ++ (whole ++ [(_, span)])) :=
        .leadingItem hes hwhole
      rw [← List.reverse_cons] at hitem
      refine .expression ?_
      simpa using h.array hitem
  -- an item in front of the bracket is the last one and has no comma
  case h_6 =>
    cases hstep
    cases hfront with
    | @array _ _ front us first es h hes =>
      have hitems := Makes.lastItem hes hwhole
      rw [← List.reverse_cons] at hitems
      have harray : Makes (.operand 10 _) ((_, first) :: (us ++ whole ++ [(_, span)])) :=
        .array hitems
      exact behind h harray (by simp)
  -- an entry is the same with its key and the colon in front
  case h_7 =>
    cases hstep
    cases hfront with
    | @object _ _ front us t key first place colon es h hes hkey =>
      have hentry : Makes (.leadingEntries _)
          (us ++ (t, place) :: (_, colon) :: (whole ++ [(_, span)])) :=
        .leadingEntry hes hkey hwhole
      rw [← List.reverse_cons] at hentry
      simpa using Holds.key h hentry
  case h_8 =>
    cases hstep
    cases hfront with
    | @object _ _ front us t key first place colon es h hes hkey =>
      have hentries : Makes (.entries _) (us ++ (t, place) :: (_, colon) :: whole) :=
        .lastEntry hes hkey hwhole
      rw [← List.reverse_cons] at hentries
      have hobject : Makes (.operand 10 _) ((_, first) :: (_ ++ [(_, span)])) := .object hentries
      exact behind h hobject (by simp)
  -- behind an operand the bracket ends an index or the arguments of a call
  case h_9 =>
    cases hstep
    cases hfront with
    | @index _ _ front us first _ h ho =>
      have hindex : Makes (.operand 10 _) (us ++ (_, first) :: (whole ++ [(_, span)])) :=
        .index ho hwhole
      exact behind h hindex (by simp)
  case h_10 =>
    cases hstep
    cases hfront with
    | @call _ _ front us vs first _ es h ho hes =>
      have hitem : Makes (.leadingItems _) (vs ++ (whole ++ [(_, span)])) :=
        .leadingItem hes hwhole
      rw [← List.reverse_cons] at hitem
      refine .expression ?_
      simpa using h.call ho hitem
  case h_11 =>
    cases hstep
    cases hfront with
    | @call _ _ front us vs first _ es h ho hes =>
      have hitems := Makes.lastItem hes hwhole
      rw [← List.reverse_cons] at hitems
      have hcall : Makes (.operand 10 _) (us ++ (_, first) :: (vs ++ whole ++ [(_, span)])) :=
        .call ho hitems
      exact behind h hcall (by simp)
  -- the colon makes the consequent a finished expression; the condition is kept as it was
  case h_12 =>
    cases hstep
    cases hfront with
    | @consequent _ front us question _ h hc =>
      refine .expression ?_
      simpa using h.alternative hc hwhole
  case h_13 => cases hstep

theorem atContinuation {assignable : Bool} (h : Open statements level opened ts)
    (hx : Makes (.operand 10 x) us)
    (hassignable : assignable = true →
      level = 0 ∧ ∃ n span, us = [(.name n, span)] ∧ x = ⟨.identifier span n, span⟩)
    (hstep : Progress.atContinuation ⟨statements, opened, awaited⟩ x assignable t span = some next) :
    Holds next (ts ++ us ++ [(t, span)]) := by
  have hlevel := h.level_le
  rw [Progress.atContinuation.eq_def] at hstep
  split at hstep
  -- an operator closes those that bind as tightly, which leaves an operand of its level to its left
  case h_1 operator ht =>
    cases hstep
    have hle := operator.level_le
    obtain ⟨front, whole, level', bound, heq, hfront, hwhole, hupTo, hbound, -⟩ :=
      h.closeOperators operator.level hx (by omega) (by omega) (by omega) hle
    rw [heq, List.append_assoc]
    exact .operand (hfront.binary ht (hwhole.mono hbound) hupTo)
  -- the other forms go on with the operand itself, and close nothing
  case h_2 =>
    cases hstep
    rw [List.append_assoc]
    exact .property h hx
  case h_3 =>
    cases hstep
    rw [List.append_assoc]
    exact .expression (h.index hx)
  case h_4 =>
    cases hstep
    rw [List.append_assoc]
    exact .expression (h.call hx .noItems)
  -- a question mark closes all operators; what is left demands nothing, so the condition is whole
  case h_5 =>
    cases hstep
    obtain ⟨front, whole, level', bound, heq, hfront, hwhole, hupTo, -, hbound⟩ :=
      h.closeOperators 0 hx (by omega) (by omega) (by omega) (by omega)
    obtain rfl := Nat.le_zero.mp hupTo
    rw [heq, List.append_assoc]
    exact .expression (hfront.consequent (hwhole.mono hbound))
  -- only a name that stands alone may be assigned to, and nothing is demanded of its place
  case h_6 hvalue _ =>
    cases hstep
    obtain ⟨rfl, n, place, rfl, rfl⟩ := hassignable rfl
    obtain ⟨-, rfl⟩ := Expression.identifier.inj hvalue
    have hassign : Open _ 0 (.assign place.start n :: opened) (ts ++ [(_, place), (_, span)]) :=
      h.assign
    exact push hassign (by simp)
  case h_7 => exact atClosing h (hx.mono (by omega)) hstep

/-- A token keeps up what has been read. -/
theorem step (h : Holds p ts) (hstep : p.step t span = some next) : Holds next (ts ++ [(t, span)]) := by
  rw [Progress.step.eq_def] at hstep
  -- what is awaited says which tokens were read since, and which may come
  cases h with
  | expression h => exact atExpression h hstep
  | @operand _ level _ _ h =>
    have hassignable : false = true → level = 0 := nofun
    exact beginOperand h hassignable hstep
  | continuation h hx hassignable => exact atContinuation h hx hassignable hstep
  -- a name behind the dot
  | @property _ _ _ ts us _ dot h hx =>
    simp only at hstep
    split at hstep
    · next n =>
      cases hstep
      have hmember : Makes (.operand 10 _) (us ++ [(_, dot), (.name n, span)]) := .member hx
      exact behind h hmember (by simp)
    · cases hstep
  -- the end of the object, or the next key
  | @key _ _ _ ts us first _ h hes =>
    simp only at hstep
    split at hstep
    · cases hstep
      have hobject : Makes (.operand 10 _) ((_, first) :: (us ++ [(_, span)])) :=
        .object (.entriesEnd hes)
      exact behind h hobject (by simp)
    · obtain ⟨key, hkey, rfl⟩ := Option.map_eq_some_iff.mp hstep
      simpa using Holds.colon h hes hkey
  | @colon _ _ _ ts us t _ first place _ h hes hkey =>
    simp only at hstep
    split at hstep
    · cases hstep
      have hobject : Open _ 0 _ (ts ++ (_, first) :: (us ++ [(t, place), (_, span)])) :=
        h.object hes hkey
      exact push hobject (by simp)
    · cases hstep
  -- a name, and behind it a sign, a comma or the end of the statement
  | declarator h =>
    simp only at hstep
    split at hstep
    · cases hstep
      exact .declared h
    · cases hstep
  | @declared _ ts n place h =>
    have hdeclared : Makes (.declared _) (ts ++ [(.name n, place)]) := .declareName h
    simp only at hstep
    split at hstep
    · cases hstep
      have hdeclare : Open _ 0 [.declare n] (ts ++ [(.name n, place), (_, span)]) := .declare h
      exact push hdeclare (by simp)
    · cases hstep
      refine .declarator ?_
      simpa [Progress.finish] using hdeclared.comma
    · cases hstep
      refine .expression (.bottom ?_)
      simpa using hdeclared.programDeclared.semicolon
    · cases hstep

/-- What can end here is a program. -/
theorem done? {ss : List Statement} (h : Holds p ts) (hdone : p.done? = some ss) :
    Makes (.program ss) ts := by
  rw [Progress.done?.eq_def] at hdone
  cases h with
  | expression h =>
    cases h with
    | bottom h =>
      cases hdone
      exact h.programEnded
    | _ => cases hdone
  -- behind an operand everything is closed, and nothing but a declaration may be left open
  | continuation h hx =>
    have hlevel := h.level_le
    obtain ⟨front, whole, heq, hfront, hwhole⟩ := h.closeAll (hx.mono (by omega))
    rw [heq]
    simp only at hdone
    split at hdone
    · next hclosed =>
      rw [hclosed] at hfront hwhole
      cases hdone
      cases hfront with
      | bottom h => simpa [Progress.finish] using Makes.evaluate h hwhole
    · next n _ hclosed =>
      rw [hclosed] at hfront hwhole
      cases hdone
      cases hfront with
      | @declare _ ts place sign h =>
        have hdeclared : Makes (.declared _) (ts ++ (.name n, place) :: (_, sign) :: whole) :=
          .declareValue h hwhole
        simpa [Progress.finish] using hdeclared.programDeclared
    · cases hdone
  | @declared _ ts n place h =>
    cases hdone
    have hdeclared : Makes (.declared _) (ts ++ [(.name n, place)]) := .declareName h
    simpa [Progress.finish] using hdeclared.programDeclared
  | _ => cases hdone

end Holds

/-! ### Runs -/

section Runs

variable {p : Progress} {ts us : List (Token × Span)} {stop span : Span} {ss : List Statement}

/-- What has been read after some more tokens, if a program can go on with all of them. -/
def Progress.run (p : Progress) (ts : List (Token × Span)) : Option Progress :=
  ts.foldlM (fun p entry => p.step entry.1 entry.2) p

@[simp] theorem Progress.run_nil (p : Progress) : p.run [] = some p := rfl

@[simp] theorem Progress.run_cons (p : Progress) (t : Token) (span : Span)
    (ts : List (Token × Span)) :
    p.run ((t, span) :: ts) = (p.step t span).bind fun next => next.run ts := rfl

@[simp] theorem Progress.run_append (p : Progress) (ts us : List (Token × Span)) :
    p.run (ts ++ us) = (p.run ts).bind fun next => next.run us :=
  List.foldlM_append

/-- The tokens are read where each of them has its step and all can end behind the last one. -/
theorem Progress.readAll_eq_ok_iff :
    p.readAll stop ts = .ok ss ↔ ∃ q, p.run ts = some q ∧ q.done? = some ss := by
  induction ts generalizing p with
  | nil =>
    rw [readAll]
    split <;> simp_all
  | cons entry ts ih =>
    obtain ⟨t, span⟩ := entry
    rw [readAll, run_cons]
    cases p.step t span with
    | none => simp
    | some next => exact ih

/-- The fault is the first token that has no step, or lies at the end where nothing can end there. -/
theorem Progress.stuck_of_readAll (h : p.readAll stop ts = .error span) :
    (∃ before t after q, ts = before ++ (t, span) :: after ∧ p.run before = some q ∧
        q.step t span = none) ∨
      (span = stop ∧ ∃ q, p.run ts = some q ∧ q.done? = none) := by
  induction ts generalizing p with
  | nil =>
    rw [readAll] at h
    split at h
    · cases h
    · next hdone =>
      cases h
      exact .inr ⟨rfl, p, rfl, hdone⟩
  | cons entry ts ih =>
    obtain ⟨t, place⟩ := entry
    rw [readAll] at h
    split at h
    · next next hstep =>
      rcases ih h with ⟨before, t', after, q, rfl, hrun, hq⟩ | ⟨hspan, q, hrun, hdone⟩
      · exact .inl ⟨(t, place) :: before, t', after, q, rfl, by rw [run_cons, hstep]; exact hrun, hq⟩
      · exact .inr ⟨hspan, q, by rw [run_cons, hstep]; exact hrun, hdone⟩
    · next hstep =>
      cases h
      exact .inl ⟨[], t, ts, p, rfl, rfl, hstep⟩

theorem Holds.run (h : Holds p ts) {q : Progress} (hrun : p.run us = some q) : Holds q (ts ++ us) := by
  induction us generalizing p ts with
  | nil =>
    cases hrun
    rwa [List.append_nil]
  | cons entry us ih =>
    obtain ⟨t, span⟩ := entry
    obtain ⟨next, hstep, hrest⟩ := Option.bind_eq_some_iff.mp hrun
    have hnext := ih (h.step hstep) hrest
    rwa [List.append_assoc] at hnext

/-- The statements that are read from tokens are those that the grammar derives from them. -/
theorem makes_of_readAll (h : Progress.start.readAll stop ts = .ok ss) : Makes (.program ss) ts := by
  obtain ⟨q, hrun, hdone⟩ := Progress.readAll_eq_ok_iff.mp h
  exact (Holds.start.run hrun).done? hdone

end Runs

end Stencil
