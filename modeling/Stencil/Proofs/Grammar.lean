/-
Stencil/Proofs/Grammar.lean

The grammar of the expression language.  `Makes phrase tokens` derives from a row of
tokens with their places the phrase that it makes: an operand in a place that demands a
level, a list of items or entries, or the statements of a program.  Lists grow at their
end, so a rule adds what a reader meets last.

The rules say nothing about how tokens are read, and they hold no state.  A phrase that
a level lets stand may stand at every lower level (`Makes.mono`), an operand extends
from its first token to its last (`Makes.extent`), and the rules look at the tokens
only, not at their places (`Makes.replaced`).
-/
import Stencil.Expression.Progress

namespace Stencil

/-- What a row of tokens makes. -/
inductive Phrase where
  /-- An operand in a place that demands `level`: an operator of a lower level may only stand there
  in brackets. -/
  | operand (level : Nat) (x : Operand)
  /-- Items with a comma behind each. -/
  | leadingItems (items : List Expression)
  | items (items : List Expression)
  /-- Entries with a comma behind each. -/
  | leadingEntries (entries : List (String × Expression))
  | entries (entries : List (String × Expression))
  /-- Statements behind the last of which, if there is one, stands a semicolon. -/
  | ended (statements : List Statement)
  /-- Statements, and the beginning of a declaration in which a name comes next. -/
  | declaring (statements : List Statement)
  /-- Statements, the last of which is a declaration. -/
  | declared (statements : List Statement)
  | program (statements : List Statement)

/-- The tokens make the phrase. -/
inductive Makes : Phrase → List (Token × Span) → Prop
  | literal {level : Nat} {t : Token} {span : Span} {value : Literal} :
      Literal.ofToken? t = some value →
      Makes (.operand level ⟨.literal span value, span⟩) [(t, span)]
  | identifier {level : Nat} {n : String} {span : Span} :
      Makes (.operand level ⟨.identifier span n, span⟩) [(.name n, span)]
  | group {level : Nat} {x : Operand} {ts : List (Token × Span)} {first last : Span} :
      Makes (.operand 0 x) ts →
      Makes (.operand level ⟨x.value, ⟨first.start, last.stop⟩⟩)
        ((.opening .round, first) :: (ts ++ [(.closing .round, last)]))
  | array {level : Nat} {es : List Expression} {ts : List (Token × Span)} {first last : Span} :
      Makes (.items es) ts →
      Makes (.operand level (.upTo first.start last fun span => .array span es))
        ((.opening .square, first) :: (ts ++ [(.closing .square, last)]))
  | object {level : Nat} {es : List (String × Expression)} {ts : List (Token × Span)}
      {first last : Span} :
      Makes (.entries es) ts →
      Makes (.operand level (.upTo first.start last fun span => .object span es))
        ((.opening .curly, first) :: (ts ++ [(.closing .curly, last)]))
  | member {level : Nat} {x : Operand} {n : String} {ts : List (Token × Span)} {dot last : Span} :
      Makes (.operand 10 x) ts →
      Makes (.operand level (.upTo x.extent.start last fun span => .member span x.value n))
        (ts ++ [(.symbol .dot, dot), (.name n, last)])
  | index {level : Nat} {x i : Operand} {ts us : List (Token × Span)} {first last : Span} :
      Makes (.operand 10 x) ts → Makes (.operand 0 i) us →
      Makes (.operand level (.upTo x.extent.start last fun span => .index span x.value i.value))
        (ts ++ (.opening .square, first) :: (us ++ [(.closing .square, last)]))
  | call {level : Nat} {x : Operand} {es : List Expression} {ts us : List (Token × Span)}
      {first last : Span} :
      Makes (.operand 10 x) ts → Makes (.items es) us →
      Makes (.operand level (.upTo x.extent.start last fun span => .call span x.value es))
        (ts ++ (.opening .round, first) :: (us ++ [(.closing .round, last)]))
  | unary {level : Nat} {t : Token} {span : Span} {operator : UnaryOperator} {x : Operand}
      {ts : List (Token × Span)} :
      UnaryOperator.ofToken? t = some operator → Makes (.operand 9 x) ts → level ≤ 9 →
      Makes (.operand level (x.over span.start fun span => .unary span operator x.value))
        ((t, span) :: ts)
  | binary {level : Nat} {t : Token} {span : Span} {operator : BinaryOperator} {l r : Operand}
      {ts us : List (Token × Span)} :
      BinaryOperator.ofToken? t = some operator → Makes (.operand operator.level l) ts →
      Makes (.operand (operator.level + 1) r) us → level ≤ operator.level →
      Makes (.operand level
          (r.over l.extent.start fun span => .binary span operator l.value r.value))
        (ts ++ (t, span) :: us)
  | conditional {c a b : Operand} {ts us vs : List (Token × Span)} {question colon : Span} :
      Makes (.operand 3 c) ts → Makes (.operand 0 a) us → Makes (.operand 0 b) vs →
      Makes (.operand 0
          (b.over c.extent.start fun span => .conditional span c.value a.value b.value))
        (ts ++ (.symbol .question, question) :: (us ++ (.symbol .colon, colon) :: vs))
  | assign {n : String} {x : Operand} {ts : List (Token × Span)} {span sign : Span} :
      Makes (.operand 0 x) ts →
      Makes (.operand 0 (x.over span.start fun span => .assign span n x.value))
        ((.name n, span) :: (.symbol .assign, sign) :: ts)
  | noItems : Makes (.leadingItems []) []
  | leadingItem {es : List Expression} {x : Operand} {ts us : List (Token × Span)} {comma : Span} :
      Makes (.leadingItems es) ts → Makes (.operand 0 x) us →
      Makes (.leadingItems (es ++ [x.value])) (ts ++ (us ++ [(.symbol .comma, comma)]))
  | itemsEnd {es : List Expression} {ts : List (Token × Span)} :
      Makes (.leadingItems es) ts → Makes (.items es) ts
  | lastItem {es : List Expression} {x : Operand} {ts us : List (Token × Span)} :
      Makes (.leadingItems es) ts → Makes (.operand 0 x) us →
      Makes (.items (es ++ [x.value])) (ts ++ us)
  | noEntries : Makes (.leadingEntries []) []
  | leadingEntry {es : List (String × Expression)} {t : Token} {key : String} {x : Operand}
      {ts us : List (Token × Span)} {span colon comma : Span} :
      Makes (.leadingEntries es) ts → keyOfToken? t = some key → Makes (.operand 0 x) us →
      Makes (.leadingEntries (es ++ [(key, x.value)]))
        (ts ++ (t, span) :: (.symbol .colon, colon) :: (us ++ [(.symbol .comma, comma)]))
  | entriesEnd {es : List (String × Expression)} {ts : List (Token × Span)} :
      Makes (.leadingEntries es) ts → Makes (.entries es) ts
  | lastEntry {es : List (String × Expression)} {t : Token} {key : String} {x : Operand}
      {ts us : List (Token × Span)} {span colon : Span} :
      Makes (.leadingEntries es) ts → keyOfToken? t = some key → Makes (.operand 0 x) us →
      Makes (.entries (es ++ [(key, x.value)])) (ts ++ (t, span) :: (.symbol .colon, colon) :: us)
  | noStatements : Makes (.ended []) []
  | semicolon {ss : List Statement} {ts : List (Token × Span)} {span : Span} :
      Makes (.program ss) ts → Makes (.ended ss) (ts ++ [(.symbol .semicolon, span)])
  | declareWord {ss : List Statement} {ts : List (Token × Span)} {span : Span} :
      Makes (.ended ss) ts → Makes (.declaring ss) (ts ++ [(.word .declareWord, span)])
  | comma {ss : List Statement} {ts : List (Token × Span)} {span : Span} :
      Makes (.declared ss) ts → Makes (.declaring ss) (ts ++ [(.symbol .comma, span)])
  | declareName {ss : List Statement} {n : String} {ts : List (Token × Span)} {span : Span} :
      Makes (.declaring ss) ts →
      Makes (.declared (ss ++ [.declare n none])) (ts ++ [(.name n, span)])
  | declareValue {ss : List Statement} {n : String} {x : Operand} {ts us : List (Token × Span)}
      {span sign : Span} :
      Makes (.declaring ss) ts → Makes (.operand 0 x) us →
      Makes (.declared (ss ++ [.declare n (some x.value)]))
        (ts ++ (.name n, span) :: (.symbol .assign, sign) :: us)
  | programEnded {ss : List Statement} {ts : List (Token × Span)} :
      Makes (.ended ss) ts → Makes (.program ss) ts
  | programDeclared {ss : List Statement} {ts : List (Token × Span)} :
      Makes (.declared ss) ts → Makes (.program ss) ts
  | evaluate {ss : List Statement} {x : Operand} {ts us : List (Token × Span)} :
      Makes (.ended ss) ts → Makes (.operand 0 x) us →
      Makes (.program (ss ++ [.evaluate x.value])) (ts ++ us)

/-! ### Levels -/

variable {level level' : Nat} {x : Operand} {phrase : Phrase} {ts : List (Token × Span)}

/-- An operand may stand wherever less is demanded. -/
theorem Makes.mono (h : Makes (.operand level x) ts) (hle : level' ≤ level) :
    Makes (.operand level' x) ts := by
  cases h with
  | literal hvalue => exact .literal hvalue
  | identifier => exact .identifier
  | group h => exact .group h
  | array h => exact .array h
  | object h => exact .object h
  | member h => exact .member h
  | index h hi => exact .index h hi
  | call h hes => exact .call h hes
  | unary ht h hlevel => exact .unary ht h (Nat.le_trans hle hlevel)
  | binary ht hl hr hlevel => exact .binary ht hl hr (Nat.le_trans hle hlevel)
  | conditional hc ha hb =>
    obtain rfl := Nat.le_zero.mp hle
    exact .conditional hc ha hb
  | assign h =>
    obtain rfl := Nat.le_zero.mp hle
    exact .assign h

/-! ### Extents -/

section Extents

variable {us : List (Token × Span)} {t : Token} {offset : Nat} {span : Span}

/-- The first token begins at the offset. -/
def BeginsAt (offset : Nat) (ts : List (Token × Span)) : Prop :=
  ∃ t span rest, ts = (t, span) :: rest ∧ span.start = offset

/-- The last token ends at the offset. -/
def EndsAt (offset : Nat) (ts : List (Token × Span)) : Prop :=
  ∃ t span front, ts = front ++ [(t, span)] ∧ span.stop = offset

theorem BeginsAt.cons : BeginsAt span.start ((t, span) :: ts) := ⟨t, span, ts, rfl, rfl⟩

theorem BeginsAt.append (h : BeginsAt offset ts) (us : List (Token × Span)) :
    BeginsAt offset (ts ++ us) := by
  obtain ⟨t, span, rest, rfl, hstart⟩ := h
  exact ⟨t, span, rest ++ us, rfl, hstart⟩

theorem EndsAt.concat (front : List (Token × Span)) : EndsAt span.stop (front ++ [(t, span)]) :=
  ⟨t, span, front, rfl, rfl⟩

theorem EndsAt.behind (h : EndsAt offset ts) (us : List (Token × Span)) :
    EndsAt offset (us ++ ts) := by
  obtain ⟨t, span, front, rfl, hstop⟩ := h
  exact ⟨t, span, us ++ front, (List.append_assoc _ _ _).symm, hstop⟩

theorem EndsAt.cons (h : EndsAt offset ts) (entry : Token × Span) : EndsAt offset (entry :: ts) :=
  h.behind [entry]

/-- The first token begins where the span does, and the last one ends with it. -/
structure Covers (span : Span) (ts : List (Token × Span)) : Prop where
  begins : BeginsAt span.start ts
  ends : EndsAt span.stop ts

/-- The extent of an operand. -/
def Phrase.extent? : Phrase → Option Span
  | .operand _ x => some x.extent
  | _ => none

theorem Makes.covers (h : Makes phrase ts) : ∀ span ∈ phrase.extent?, Covers span ts := by
  induction h with
  | literal | identifier =>
    rintro _ ⟨⟩
    exact ⟨.cons, .concat []⟩
  | group | array | object =>
    rintro _ ⟨⟩
    exact ⟨.cons, .cons (.concat _) _⟩
  | member _ ih =>
    rintro _ ⟨⟩
    exact ⟨(ih _ rfl).begins.append _, .behind (.concat [_]) _⟩
  | index _ _ ih | call _ _ ih =>
    rintro _ ⟨⟩
    exact ⟨(ih _ rfl).begins.append _, .behind (.cons (.concat _) _) _⟩
  | unary _ _ _ ih =>
    rintro _ ⟨⟩
    exact ⟨.cons, (ih _ rfl).ends.cons _⟩
  | binary _ _ _ _ ihl ihr =>
    rintro _ ⟨⟩
    exact ⟨(ihl _ rfl).begins.append _, .behind ((ihr _ rfl).ends.cons _) _⟩
  | conditional _ _ _ ihc _ ihb =>
    rintro _ ⟨⟩
    exact ⟨(ihc _ rfl).begins.append _,
      .behind (.cons (.behind ((ihb _ rfl).ends.cons _) _) _) _⟩
  | assign _ ih =>
    rintro _ ⟨⟩
    exact ⟨.cons, ((ih _ rfl).ends.cons _).cons _⟩
  | _ => nofun

/-- An operand extends from its first token to its last. -/
theorem Makes.extent (h : Makes (.operand level x) ts) : Covers x.extent ts := h.covers _ rfl

end Extents

/-! ### Other places -/

/-- Phrases of the same kind, in places that demand the same level. -/
inductive Phrase.Like : Phrase → Phrase → Prop
  | operand {level : Nat} (x y : Operand) : Like (.operand level x) (.operand level y)
  | leadingItems (es es' : List Expression) : Like (.leadingItems es) (.leadingItems es')
  | items (es es' : List Expression) : Like (.items es) (.items es')
  | leadingEntries (es es' : List (String × Expression)) :
    Like (.leadingEntries es) (.leadingEntries es')
  | entries (es es' : List (String × Expression)) : Like (.entries es) (.entries es')
  | ended (ss ss' : List Statement) : Like (.ended ss) (.ended ss')
  | declaring (ss ss' : List Statement) : Like (.declaring ss) (.declaring ss')
  | declared (ss ss' : List Statement) : Like (.declared ss) (.declared ss')
  | program (ss ss' : List Statement) : Like (.program ss) (.program ss')

/-- The same tokens, maybe at other places. -/
def SameTokens (ts' ts : List (Token × Span)) : Prop := ts'.map Prod.fst = ts.map Prod.fst

namespace SameTokens

variable {ts' us vs : List (Token × Span)} {t : Token} {span : Span}

theorem of_nil (h : SameTokens ts' []) : ts' = [] := List.map_eq_nil_iff.mp h

theorem of_cons (h : SameTokens ts' ((t, span) :: us)) :
    ∃ span' us', ts' = (t, span') :: us' ∧ SameTokens us' us := by
  obtain ⟨⟨t', span'⟩, us', rfl, rfl, hus⟩ := List.map_eq_cons_iff.mp h
  exact ⟨span', us', rfl, hus⟩

theorem of_singleton (h : SameTokens ts' [(t, span)]) : ∃ span', ts' = [(t, span')] := by
  obtain ⟨span', us', rfl, hus⟩ := h.of_cons
  exact ⟨span', by rw [hus.of_nil]⟩

theorem of_append (h : SameTokens ts' (us ++ vs)) :
    ∃ us' vs', ts' = us' ++ vs' ∧ SameTokens us' us ∧ SameTokens vs' vs := by
  rw [SameTokens, List.map_append] at h
  exact List.map_eq_append_iff.mp h

theorem of_concat (h : SameTokens ts' (us ++ [(t, span)])) :
    ∃ us' span', ts' = us' ++ [(t, span')] ∧ SameTokens us' us := by
  obtain ⟨us', vs', rfl, hus, hvs⟩ := h.of_append
  obtain ⟨span', rfl⟩ := hvs.of_singleton
  exact ⟨us', span', rfl, hus⟩

/-- What stands between two tokens. -/
theorem of_enclosed {t₁ t₂ : Token} {first last : Span}
    (h : SameTokens ts' ((t₁, first) :: (us ++ [(t₂, last)]))) :
    ∃ first' us' last', ts' = (t₁, first') :: (us' ++ [(t₂, last')]) ∧ SameTokens us' us := by
  obtain ⟨first', vs', rfl, hvs⟩ := h.of_cons
  obtain ⟨us', last', rfl, hus⟩ := hvs.of_concat
  exact ⟨first', us', last', rfl, hus⟩

end SameTokens

/-- The same tokens make a phrase of the same kind at any other places. -/
theorem Makes.replaced (h : Makes phrase ts) {ts' : List (Token × Span)} (hts : SameTokens ts' ts) :
    ∃ phrase', phrase.Like phrase' ∧ Makes phrase' ts' := by
  -- by induction on the derivation: the other row is cut where the rule cuts this one, and each part of
  -- it makes a phrase of the same kind
  induction h generalizing ts' with
  -- one token, of which only the place is new
  | literal hvalue =>
    obtain ⟨span, rfl⟩ := hts.of_singleton
    exact ⟨_, .operand _ _, .literal hvalue⟩
  | identifier =>
    obtain ⟨span, rfl⟩ := hts.of_singleton
    exact ⟨_, .operand _ _, .identifier⟩
  -- between brackets: matching on `Like` keeps the kind and the level of what is inside, and the rule
  -- asks for nothing else of it
  | group _ ih =>
    obtain ⟨first, us, last, rfl, hus⟩ := hts.of_enclosed
    obtain ⟨_, ⟨⟩, h⟩ := ih hus
    exact ⟨_, .operand _ _, .group h⟩
  | array _ ih =>
    obtain ⟨first, us, last, rfl, hus⟩ := hts.of_enclosed
    obtain ⟨_, ⟨⟩, h⟩ := ih hus
    exact ⟨_, .operand _ _, .array h⟩
  | object _ ih =>
    obtain ⟨first, us, last, rfl, hus⟩ := hts.of_enclosed
    obtain ⟨_, ⟨⟩, h⟩ := ih hus
    exact ⟨_, .operand _ _, .object h⟩
  -- behind an operand, which is the first part of the row
  | member _ ih =>
    obtain ⟨us, vs, rfl, hus, hvs⟩ := hts.of_append
    obtain ⟨dot, ws, rfl, hws⟩ := hvs.of_cons
    obtain ⟨last, rfl⟩ := hws.of_singleton
    obtain ⟨_, ⟨⟩, h⟩ := ih hus
    exact ⟨_, .operand _ _, .member h⟩
  | index _ _ ih ihi =>
    obtain ⟨us, vs, rfl, hus, hvs⟩ := hts.of_append
    obtain ⟨first, ws, last, rfl, hws⟩ := hvs.of_enclosed
    obtain ⟨_, ⟨⟩, h⟩ := ih hus
    obtain ⟨_, ⟨⟩, hi⟩ := ihi hws
    exact ⟨_, .operand _ _, .index h hi⟩
  | call _ _ ih ihes =>
    obtain ⟨us, vs, rfl, hus, hvs⟩ := hts.of_append
    obtain ⟨first, ws, last, rfl, hws⟩ := hvs.of_enclosed
    obtain ⟨_, ⟨⟩, h⟩ := ih hus
    obtain ⟨_, ⟨⟩, hes⟩ := ihes hws
    exact ⟨_, .operand _ _, .call h hes⟩
  -- an operator is known by its token alone, so it demands the same levels at any place
  | unary ht _ hlevel ih =>
    obtain ⟨span, us, rfl, hus⟩ := hts.of_cons
    obtain ⟨_, ⟨⟩, h⟩ := ih hus
    exact ⟨_, .operand _ _, .unary ht h hlevel⟩
  | binary ht _ _ hlevel ihl ihr =>
    obtain ⟨us, vs, rfl, hus, hvs⟩ := hts.of_append
    obtain ⟨span, ws, rfl, hws⟩ := hvs.of_cons
    obtain ⟨_, ⟨⟩, hl⟩ := ihl hus
    obtain ⟨_, ⟨⟩, hr⟩ := ihr hws
    exact ⟨_, .operand _ _, .binary ht hl hr hlevel⟩
  | conditional _ _ _ ihc iha ihb =>
    obtain ⟨us, vs, rfl, hus, hvs⟩ := hts.of_append
    obtain ⟨question, ws, rfl, hws⟩ := hvs.of_cons
    obtain ⟨as, rest, rfl, has, hrest⟩ := hws.of_append
    obtain ⟨colon, bs, rfl, hbs⟩ := hrest.of_cons
    obtain ⟨_, ⟨⟩, hc⟩ := ihc hus
    obtain ⟨_, ⟨⟩, ha⟩ := iha has
    obtain ⟨_, ⟨⟩, hb⟩ := ihb hbs
    exact ⟨_, .operand _ _, .conditional hc ha hb⟩
  | assign _ ih =>
    obtain ⟨span, us, rfl, hus⟩ := hts.of_cons
    obtain ⟨sign, vs, rfl, hvs⟩ := hus.of_cons
    obtain ⟨_, ⟨⟩, h⟩ := ih hvs
    exact ⟨_, .operand _ _, .assign h⟩
  -- lists grow at their end, so the last item is cut off first
  | noItems =>
    rw [hts.of_nil]
    exact ⟨_, .leadingItems _ _, .noItems⟩
  | leadingItem _ _ ihes ihx =>
    obtain ⟨us, vs, rfl, hus, hvs⟩ := hts.of_append
    obtain ⟨ws, comma, rfl, hws⟩ := hvs.of_concat
    obtain ⟨_, ⟨⟩, hes⟩ := ihes hus
    obtain ⟨_, ⟨⟩, hx⟩ := ihx hws
    exact ⟨_, .leadingItems _ _, .leadingItem hes hx⟩
  | itemsEnd _ ih =>
    obtain ⟨_, ⟨⟩, h⟩ := ih hts
    exact ⟨_, .items _ _, .itemsEnd h⟩
  | lastItem _ _ ihes ihx =>
    obtain ⟨us, vs, rfl, hus, hvs⟩ := hts.of_append
    obtain ⟨_, ⟨⟩, hes⟩ := ihes hus
    obtain ⟨_, ⟨⟩, hx⟩ := ihx hvs
    exact ⟨_, .items _ _, .lastItem hes hx⟩
  -- in front of an item, an entry has a key, which is known by its token, and a colon
  | noEntries =>
    rw [hts.of_nil]
    exact ⟨_, .leadingEntries _ _, .noEntries⟩
  | leadingEntry _ hkey _ ihes ihx =>
    obtain ⟨us, vs, rfl, hus, hvs⟩ := hts.of_append
    obtain ⟨span, ws, rfl, hws⟩ := hvs.of_cons
    obtain ⟨colon, xs, comma, rfl, hxs⟩ := hws.of_enclosed
    obtain ⟨_, ⟨⟩, hes⟩ := ihes hus
    obtain ⟨_, ⟨⟩, hx⟩ := ihx hxs
    exact ⟨_, .leadingEntries _ _, .leadingEntry hes hkey hx⟩
  | entriesEnd _ ih =>
    obtain ⟨_, ⟨⟩, h⟩ := ih hts
    exact ⟨_, .entries _ _, .entriesEnd h⟩
  | lastEntry _ hkey _ ihes ihx =>
    obtain ⟨us, vs, rfl, hus, hvs⟩ := hts.of_append
    obtain ⟨span, ws, rfl, hws⟩ := hvs.of_cons
    obtain ⟨colon, xs, rfl, hxs⟩ := hws.of_cons
    obtain ⟨_, ⟨⟩, hes⟩ := ihes hus
    obtain ⟨_, ⟨⟩, hx⟩ := ihx hxs
    exact ⟨_, .entries _ _, .lastEntry hes hkey hx⟩
  -- statements grow at their end too; what a declaration still waits for is part of the kind
  | noStatements =>
    rw [hts.of_nil]
    exact ⟨_, .ended _ _, .noStatements⟩
  | semicolon _ ih =>
    obtain ⟨us, span, rfl, hus⟩ := hts.of_concat
    obtain ⟨_, ⟨⟩, h⟩ := ih hus
    exact ⟨_, .ended _ _, .semicolon h⟩
  | declareWord _ ih =>
    obtain ⟨us, span, rfl, hus⟩ := hts.of_concat
    obtain ⟨_, ⟨⟩, h⟩ := ih hus
    exact ⟨_, .declaring _ _, .declareWord h⟩
  | comma _ ih =>
    obtain ⟨us, span, rfl, hus⟩ := hts.of_concat
    obtain ⟨_, ⟨⟩, h⟩ := ih hus
    exact ⟨_, .declaring _ _, .comma h⟩
  | declareName _ ih =>
    obtain ⟨us, span, rfl, hus⟩ := hts.of_concat
    obtain ⟨_, ⟨⟩, h⟩ := ih hus
    exact ⟨_, .declared _ _, .declareName h⟩
  | declareValue _ _ ih ihx =>
    obtain ⟨us, vs, rfl, hus, hvs⟩ := hts.of_append
    obtain ⟨span, ws, rfl, hws⟩ := hvs.of_cons
    obtain ⟨sign, xs, rfl, hxs⟩ := hws.of_cons
    obtain ⟨_, ⟨⟩, h⟩ := ih hus
    obtain ⟨_, ⟨⟩, hx⟩ := ihx hxs
    exact ⟨_, .declared _ _, .declareValue h hx⟩
  | programEnded _ ih =>
    obtain ⟨_, ⟨⟩, h⟩ := ih hts
    exact ⟨_, .program _ _, .programEnded h⟩
  | programDeclared _ ih =>
    obtain ⟨_, ⟨⟩, h⟩ := ih hts
    exact ⟨_, .program _ _, .programDeclared h⟩
  | evaluate _ _ ih ihx =>
    obtain ⟨us, vs, rfl, hus, hvs⟩ := hts.of_append
    obtain ⟨_, ⟨⟩, h⟩ := ih hus
    obtain ⟨_, ⟨⟩, hx⟩ := ihx hvs
    exact ⟨_, .program _ _, .evaluate h hx⟩

end Stencil
