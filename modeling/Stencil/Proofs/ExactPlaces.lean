/-
Stencil/Proofs/ExactPlaces.lean

Expressions stand exactly where they say.  Inside of the tokens that make a phrase, every
expression of the phrase, however deeply nested, has a row of neighbouring tokens that
make it by itself (`Makes.shows`).  Round brackets belong to the row of what stands around
them, so the row of an expression extends just as far as the expression.  As a text may be
cut in front of and behind any of its tokens, the code at the place of an expression is
read as that expression, with the places of all its parts (`readStatements_exact`).

The code texts of a directive are parts of its body, and arguments are read between two
brackets that no item takes up.  So the main result, `compile_exact`, holds of all
expressions of all directives of a template that compiles.
-/
import Stencil.Proofs.Compiling
import Stencil.Proofs.Deriving
import Stencil.Proofs.ExpressionPlaces
import Stencil.Proofs.MovedCode
import Stencil.Proofs.TokenCuts

namespace Stencil

open Text

/-! ### Rows of tokens inside of others -/

/-- The expressions that a phrase consists of. -/
def Phrase.expressions : Phrase → List Expression
  | .operand _ x => [x.value]
  | .leadingItems es | .items es => es
  | .leadingEntries es | .entries es => es.map Prod.snd
  | .ended ss | .declaring ss | .declared ss | .program ss => ss.flatMap (·.mark.expressions)

/-- The tokens make the expression and extend as far as it does.  An array is made of its items in
brackets. -/
structure Expression.MadeOf (ts : List (Token × Span)) (e : Expression) : Prop where
  makes : Makes (.operand 0 ⟨e, e.span⟩) ts
  items : ∀ span es, e = .array span es →
    ∃ first us last, ts = first :: (us ++ [last]) ∧ Makes (.items es) us

/-- Every part of the expression is made of some of the tokens. -/
def Expression.ShowsIn (ts : List (Token × Span)) (e : Expression) : Prop :=
  ∀ part ∈ e.parts, ∃ mid, mid <:+: ts ∧ part.MadeOf mid

namespace Expression.ShowsIn

variable {ts us : List (Token × Span)} {e : Expression}

theorem mono (h : e.ShowsIn ts) (hsub : ts <:+: us) : e.ShowsIn us := by
  intro part hpart
  obtain ⟨mid, hmid, hmakes⟩ := h part hpart
  exact ⟨mid, hmid.trans hsub, hmakes⟩

theorem of_children (hself : e.MadeOf ts) (hchildren : ∀ child ∈ e.children, child.ShowsIn ts) :
    e.ShowsIn ts := by
  intro part hpart
  rw [e.parts_eq, List.mem_cons] at hpart
  rcases hpart with rfl | hpart
  · exact ⟨ts, List.infix_refl ts, hself⟩
  · obtain ⟨child, hchild, hpart⟩ := List.mem_flatMap.mp hpart
    exact hchildren child hchild part hpart

/-- What is in the front of a row, is in the row. -/
theorem append (h : e.ShowsIn ts) (us : List (Token × Span)) : e.ShowsIn (ts ++ us) :=
  h.mono (List.prefix_append ts us).isInfix

/-- What is at the end of a row, is in the row. -/
theorem behind (h : e.ShowsIn ts) (us : List (Token × Span)) : e.ShowsIn (us ++ ts) :=
  h.mono (List.suffix_append us ts).isInfix

theorem cons (h : e.ShowsIn ts) (entry : Token × Span) : e.ShowsIn (entry :: ts) := h.behind [entry]

end Expression.ShowsIn

/-- Every expression of a phrase is made of some of its tokens. -/
theorem Makes.shows {phrase : Phrase} {ts : List (Token × Span)} (h : Makes phrase ts) :
    ∀ e ∈ phrase.expressions, e.ShowsIn ts := by
  have hone {e : Expression} {us : List (Token × Span)} (he : e.ShowsIn us) :
      ∀ e' ∈ [e], e'.ShowsIn us := List.forall_mem_singleton.mpr he
  -- by induction on the derivation: the rule makes the expression, and its children show in parts of
  -- the tokens, which lie in the whole row
  induction h with
  | literal ht => exact hone (.of_children ⟨.literal ht, nofun⟩ nofun)
  | identifier => exact hone (.of_children ⟨.identifier, nofun⟩ nofun)
  | group _ ih => exact hone (((ih _ List.mem_cons_self).append _).cons _)
  | array h ih =>
    refine hone (.of_children ⟨.array h, ?_⟩ fun e he => ((ih e he).append _).cons _)
    rintro _ _ ⟨⟩
    exact ⟨_, _, _, rfl, h⟩
  | object h ih => exact hone (.of_children ⟨.object h, nofun⟩ fun e he => ((ih e he).append _).cons _)
  | member h ih => exact hone (.of_children ⟨.member h, nofun⟩ (hone ((ih _ List.mem_cons_self).append _)))
  | index h hi ih ihi =>
    refine hone (.of_children ⟨.index h hi, nofun⟩ (List.forall_mem_cons.mpr ⟨?_, hone ?_⟩))
    · exact (ih _ List.mem_cons_self).append _
    · exact (((ihi _ List.mem_cons_self).append _).cons _).behind _
  | call h hes ih ihes =>
    refine hone (.of_children ⟨.call h hes, nofun⟩ (List.forall_mem_cons.mpr ⟨?_, fun e he => ?_⟩))
    · exact (ih _ List.mem_cons_self).append _
    · exact (((ihes e he).append _).cons _).behind _
  | unary ht h _ ih =>
    exact hone (.of_children ⟨.unary ht h (Nat.zero_le 9), nofun⟩ (hone ((ih _ List.mem_cons_self).cons _)))
  | binary ht hl hr _ ihl ihr =>
    refine hone (.of_children ⟨.binary ht hl hr (Nat.zero_le _), nofun⟩
      (List.forall_mem_cons.mpr ⟨?_, hone ?_⟩))
    · exact (ihl _ List.mem_cons_self).append _
    · exact ((ihr _ List.mem_cons_self).cons _).behind _
  | conditional hc ha hb ihc iha ihb =>
    refine hone (.of_children ⟨.conditional hc ha hb, nofun⟩
      (List.forall_mem_cons.mpr ⟨?_, List.forall_mem_cons.mpr ⟨?_, hone ?_⟩⟩))
    · exact (ihc _ List.mem_cons_self).append _
    · exact (((iha _ List.mem_cons_self).append _).cons _).behind _
    · exact ((((ihb _ List.mem_cons_self).cons _).behind _).cons _).behind _
  | assign h ih =>
    exact hone (.of_children ⟨.assign h, nofun⟩ (hone (((ih _ List.mem_cons_self).cons _).cons _)))
  -- a list shows what it had before and the item that is added at its end
  | noItems | noEntries | noStatements => nofun
  | leadingItem _ _ ihes ihx =>
    exact List.forall_mem_append.mpr ⟨fun e he => (ihes e he).append _,
      hone (((ihx _ List.mem_cons_self).append _).behind _)⟩
  | lastItem _ _ ihes ihx =>
    exact List.forall_mem_append.mpr ⟨fun e he => (ihes e he).append _,
      hone ((ihx _ List.mem_cons_self).behind _)⟩
  | leadingEntry _ _ _ ihes ihx =>
    rw [Phrase.expressions, List.map_append, List.forall_mem_append]
    exact ⟨fun e he => (ihes e he).append _,
      hone (((((ihx _ List.mem_cons_self).append _).cons _).cons _).behind _)⟩
  | lastEntry _ _ _ ihes ihx =>
    rw [Phrase.expressions, List.map_append, List.forall_mem_append]
    exact ⟨fun e he => (ihes e he).append _,
      hone ((((ihx _ List.mem_cons_self).cons _).cons _).behind _)⟩
  -- what ends a list or a statement makes no expression
  | itemsEnd _ ih | entriesEnd _ ih | programEnded _ ih | programDeclared _ ih => exact ih
  | semicolon _ ih | declareWord _ ih | comma _ ih => exact fun e he => (ih e he).append _
  | declareName _ ih =>
    rw [Phrase.expressions, List.flatMap_append, List.forall_mem_append]
    exact ⟨fun e he => (ih e he).append _, nofun⟩
  | declareValue _ _ ih ihx =>
    rw [Phrase.expressions, List.flatMap_append, List.forall_mem_append]
    exact ⟨fun e he => (ih e he).append _,
      hone ((((ihx _ List.mem_cons_self).cons _).cons _).behind _)⟩
  | evaluate _ _ ih ihx =>
    rw [Phrase.expressions, List.flatMap_append, List.forall_mem_append]
    exact ⟨fun e he => (ih e he).append _, hone ((ihx _ List.mem_cons_self).behind _)⟩

/-! ### Parts of slices -/

/-- The slice is cut out of the other one. -/
def Slice.PartOf (part whole : Slice) : Prop :=
  ∃ before after, whole.chars = before ++ (part.chars ++ after) ∧
    part.start = whole.start + bytes before

namespace Slice.PartOf

variable {part whole rest : Slice}

theorem trans (h : rest.PartOf part) (h' : part.PartOf whole) : rest.PartOf whole := by
  obtain ⟨before, after, hchars, hstart⟩ := h
  obtain ⟨before', after', hchars', hstart'⟩ := h'
  refine ⟨before' ++ before, after ++ after', by simp [hchars', hchars], ?_⟩
  rw [hstart, hstart', bytes_append, Nat.add_assoc]

/-- A slice behind the first characters. -/
theorem back {before : List Char} (hchars : whole.chars = before ++ part.chars)
    (hstart : part.start = whole.start + bytes before) : part.PartOf whole :=
  ⟨before, [], by rw [List.append_nil, hchars], hstart⟩

/-- A slice in front of the last characters. -/
theorem front {after : List Char} (hchars : whole.chars = part.chars ++ after)
    (hstart : part.start = whole.start) : part.PartOf whole := ⟨[], after, hchars, hstart⟩

theorem after? {lead : List Char} (h : whole.after? lead = some rest) : rest.PartOf whole :=
  .back (Slice.chars_of_after? h).1 (Slice.chars_of_after? h).2

theorem before? {last : Char} (h : whole.before? last = some rest) : rest.PartOf whole :=
  .front (Slice.chars_of_before? h).1 (Slice.chars_of_before? h).2

theorem afterWord? {word : List Char} (h : whole.afterWord? word = some rest) : rest.PartOf whole := by
  rw [Slice.afterWord?] at h
  split at h
  · next behind hafter =>
    split at h
    · cases h
    · cases h
      exact .after? hafter
  · cases h

theorem splitName? {name : String} (h : whole.splitName? = some (name, rest)) : rest.PartOf whole := by
  obtain ⟨letters, -, -, -, hchars, hstart⟩ := Slice.chars_of_splitName? h
  exact .back hchars hstart

theorem trimStart (s : Slice) : s.trimStart.PartOf s :=
  .back List.takeWhile_append_dropWhile.symm rfl

theorem trimEnd (s : Slice) : s.trimEnd.PartOf s := by
  obtain ⟨tail, hchars, -⟩ := dropTrailing_spec isBlank s.chars
  exact .front hchars rfl

theorem trim (s : Slice) : s.trim.PartOf s := (trimEnd s.trimStart).trans (trimStart s)

theorem within (h : part.PartOf whole) :
    whole.span.start ≤ part.span.start ∧ part.span.stop ≤ whole.span.stop := by
  obtain ⟨before, after, hchars, hstart⟩ := h
  simp only [Slice.span, Slice.stop, hchars, bytes_append, hstart]
  omega

end Slice.PartOf

/-! ### Reading a part again -/

section Reading

variable {code whole part : Slice} {e : Expression}

/-- The code at the place of the expression is read as the expression. -/
def Expression.ReadAgain (whole : Slice) (e : Expression) : Prop :=
  ∃ code : Slice, code.PartOf whole ∧ code.chars ≠ [] ∧ code.span = e.span ∧ readExpression code = .ok e

/-- All parts of the expression stand where they say. -/
def Expression.Exact (whole : Slice) (e : Expression) : Prop := ∀ part ∈ e.parts, part.ReadAgain whole

theorem Expression.Exact.mono (h : e.Exact part) (hpart : part.PartOf whole) : e.Exact whole := by
  intro e' he'
  obtain ⟨code, hcode, hread⟩ := h e' he'
  exact ⟨code, hcode.trans hpart, hread⟩

/-- Only one span extends as far as some tokens do. -/
theorem Covers.unique {ts : List (Token × Span)} {span span' : Span} (h : Covers span ts)
    (h' : Covers span' ts) : span = span' := by
  obtain ⟨⟨t, first, rest, rfl, hstart⟩, ⟨u, last, front, hlast, hstop⟩⟩ := h
  obtain ⟨⟨_, _, _, hfirst, hstart'⟩, ⟨_, _, _, hlast', hstop'⟩⟩ := h'
  cases hfirst
  obtain ⟨-, heq⟩ := List.append_inj' (hlast.symm.trans hlast') rfl
  cases heq
  obtain ⟨start, stop⟩ := span
  obtain ⟨start', stop'⟩ := span'
  exact congrArg₂ Span.mk (hstart.symm.trans hstart') (hstop.symm.trans hstop')

theorem Makes.ne_nil {level : Nat} {x : Operand} {ts : List (Token × Span)}
    (h : Makes (.operand level x) ts) : ts ≠ [] := by
  obtain ⟨t, span, rest, rfl, -⟩ := h.extent.begins
  exact List.cons_ne_nil _ _

/-- Code whose tokens make one operand is read as its value. -/
theorem readExpression_of_makes {level : Nat} {x : Operand} {ts : List (Token × Span)}
    (hscan : Token.scan code = .ok ts) (h : Makes (.operand level x) ts) :
    readExpression code = .ok x.value := by
  have hread : readStatements code = .ok [.evaluate x.value] :=
    readStatements_eq_ok_iff.mpr ⟨ts, hscan, .evaluate .noStatements (h.mono (Nat.zero_le level))⟩
  rw [readExpression, hread]
  rfl

/-- The code around neighbouring tokens that make an expression is read as that expression. -/
theorem readAgain_of_makes {ts mid us : List (Token × Span)}
    (hscan : Token.scan code = .ok (ts ++ (mid ++ us))) (h : Makes (.operand 0 ⟨e, e.span⟩) mid) :
    ∃ front text back, code.chars = front ++ (text ++ back) ∧ (ts ≠ [] → front ≠ []) ∧
      (us ≠ [] → back ≠ []) ∧ text ≠ [] ∧
      (⟨code.start + bytes front, text⟩ : Slice).span = e.span ∧
      readExpression ⟨code.start + bytes front, text⟩ = .ok e := by
  obtain ⟨front, text, back, hchars, hfront, hback, htext, hcovers⟩ := exists_cut hscan h.ne_nil
  refine ⟨front, text, back, hchars, hfront, hback, (scan_eq_ok_iff.mp htext).ne_nil h.ne_nil, ?_,
    readExpression_of_makes htext h⟩
  exact hcovers.unique h.extent

/-- Every expression of a code text stands where it says. -/
theorem readStatements_exact {ss : List Statement} (h : readStatements code = .ok ss) :
    ∀ s ∈ ss, ∀ e ∈ s.mark.expressions, e.Exact code := by
  obtain ⟨ts, hscan, hmakes⟩ := readStatements_eq_ok_iff.mp h
  intro s hs e he part hpart
  obtain ⟨mid, ⟨before, after, rfl⟩, hmid⟩ :=
    hmakes.shows e (List.mem_flatMap.mpr ⟨s, hs, he⟩) part hpart
  rw [List.append_assoc] at hscan
  obtain ⟨front, text, back, hchars, -, -, hne, hspan, hread⟩ := readAgain_of_makes hscan hmid.makes
  exact ⟨_, ⟨front, back, hchars, rfl⟩, hne, hspan, hread⟩

/-- Code that is read as an expression is a code text of one statement. -/
theorem readStatements_of_readExpression (h : readExpression code = .ok e) :
    readStatements code = .ok [.evaluate e] := by
  rw [readExpression] at h
  rcases hread : readStatements code with fault | ss
  · rw [hread] at h
    cases h
  rw [hread] at h
  cases ss with
  | nil => cases h
  | cons s ss =>
    cases ss with
    | nil =>
      cases s with
      | declare => cases h
      | evaluate value =>
        cases h
        rfl
    | cons s' ss => cases s <;> cases h

theorem readExpression_exact (h : readExpression code = .ok e) : e.Exact code :=
  readStatements_exact (readStatements_of_readExpression h) _ List.mem_cons_self _ List.mem_cons_self

/-- An expression that is read again has its children within its place. -/
theorem Expression.ReadAgain.children (h : e.ReadAgain whole) {child : Expression}
    (hchild : child ∈ e.children) :
    e.span.start ≤ child.span.start ∧ child.span.stop ≤ e.span.stop := by
  obtain ⟨code, -, -, hspan, hread⟩ := h
  have hmem : child ∈ e.parts := by
    rw [e.parts_eq]
    exact List.mem_cons_of_mem _ (List.mem_flatMap.mpr ⟨child, hchild, child.self_mem_parts⟩)
  obtain ⟨part, hpart, -, hchildspan, -⟩ := readExpression_exact hread child hmem
  rw [← hspan, ← hchildspan]
  exact hpart.within

end Reading

/-! ### Arguments -/

section Arguments

variable {inner : Slice}

/-- A cut that takes off both ends of a text in brackets takes off the brackets. -/
theorem cut_inside {first last : Char} {cs front text back : List Char}
    (h : first :: (cs ++ [last]) = front ++ (text ++ back)) (hfront : front ≠ []) (hback : back ≠ []) :
    ∃ before after, front = first :: before ∧ cs = before ++ (text ++ after) := by
  obtain ⟨c, before, rfl⟩ := List.exists_cons_of_ne_nil hfront
  obtain ⟨after, d, rfl⟩ := (List.eq_nil_or_concat back).resolve_left hback
  rw [List.cons_append] at h
  obtain ⟨rfl, htail⟩ := List.cons.inj h
  rw [List.concat_eq_append, ← List.append_assoc, ← List.append_assoc] at htail
  refine ⟨before, after, rfl, ?_⟩
  rw [(List.append_inj' htail rfl).1, List.append_assoc]

/-- Arguments are read between two brackets, in the byte in front of their code and behind it, which
belong to no argument. -/
theorem readArguments_exact {es : List Expression} (hstart : 0 < inner.start)
    (h : readArguments inner = .ok es) : ∀ e ∈ es, e.Exact inner := by
  rw [readArguments] at h
  split at h
  · cases h
    exact List.forall_mem_nil _
  rcases hread : readExpression ⟨inner.start - 1, '[' :: inner.chars ++ [']']⟩ with fault | whole
  · rw [hread] at h
    cases h
  rw [hread] at h
  cases whole with
  | array span items =>
    obtain rfl : items = es := Except.ok.inj h
    obtain ⟨ts, hscan, hmakes⟩ :=
      readStatements_eq_ok_iff.mp (readStatements_of_readExpression hread)
    obtain ⟨mid, ⟨before, after, rfl⟩, hmid⟩ :=
      hmakes.shows _ List.mem_cons_self _ (Expression.self_mem_parts _)
    -- the first and the last token are the brackets that were put around the code
    obtain ⟨first, us, last, rfl, hitems⟩ := hmid.items span items rfl
    intro e he part hpart
    obtain ⟨mid, ⟨ts, vs, rfl⟩, hpart⟩ := hitems.shows e he part hpart
    have hcut : before ++ first :: (ts ++ mid ++ vs ++ [last]) ++ after =
        before ++ first :: ts ++ (mid ++ (vs ++ last :: after)) := by simp
    rw [hcut] at hscan
    obtain ⟨front, text, back, hchars, hfront, hback, hne, hspan, hread⟩ :=
      readAgain_of_makes hscan hpart.makes
    -- what lies between the brackets is cut out of the code itself
    obtain ⟨front, back, rfl, hinner⟩ := cut_inside hchars (hfront (by simp)) (hback (by simp))
    refine ⟨_, ⟨front, back, hinner, ?_⟩, hne, hspan, hread⟩
    have hone : ('[' : Char).utf8Size = 1 := rfl
    simp only [bytes_cons, hone]
    omega
  | _ => cases h

end Arguments

/-! ### Directives -/

/-- What is read, if anything is, has the property. -/
def Gives {α : Type} (p : α → Prop) (r : Except CompileFault α) : Prop := ∀ a, r = .ok a → p a

theorem Gives.bind {α β : Type} {p : α → Prop} {q : β → Prop} {r : Except CompileFault α}
    {f : α → Except CompileFault β} (h : Gives p r) (hf : ∀ a, p a → Gives q (f a)) :
    Gives q (r >>= f) := by
  cases r with
  | ok a => exact hf a (h a rfl)
  | error fault => nofun

/-- Every part of every expression of the directive stands where it says. -/
def Directive.Exact (body : Slice) (d : Directive) : Prop :=
  ∀ mark ∈ d.marks body.span, ∀ e ∈ mark.expressions, e.Exact body

section Directives

variable {body rest code : Slice}

theorem gives_readExpression (hcode : code.PartOf body) :
    Gives (Expression.Exact body) (readExpression code) :=
  fun _ h => (readExpression_exact h).mono hcode

/-- A directive with one expression. -/
theorem gives_single {build : Expression → Directive} (hcode : code.PartOf body)
    (hbuild : ∀ e, ∃ mark, (build e).marks body.span = [mark] ∧ mark.expressions = [e]) :
    Gives (Directive.Exact body) (readExpression code >>= fun e => pure (build e)) := by
  refine (gives_readExpression hcode).bind fun e he => ?_
  rintro _ ⟨⟩ mark hmark
  obtain ⟨only, hmarks, hexpressions⟩ := hbuild e
  rw [hmarks] at hmark
  obtain rfl := List.mem_singleton.mp hmark
  rw [hexpressions]
  exact List.forall_mem_singleton.mpr he

theorem partOf_classifyOutput? {kind : OutputKind} (h : classifyOutput? body = some (kind, rest)) :
    rest.PartOf body := by
  obtain ⟨⟨sign, kind'⟩, -, hafter⟩ := List.exists_of_findSome?_eq_some h
  obtain ⟨behind, hbehind, heq⟩ := Option.map_eq_some_iff.mp hafter
  obtain ⟨-, rfl⟩ : kind' = kind ∧ behind = rest := by simpa using heq
  exact .after? hbehind

theorem gives_split (kind : OutputKind) (h : rest.PartOf body) (whole : Span) :
    Gives (fun part => part.2.PartOf body) (kind.split rest whole) := by
  intro part hpart
  cases kind with
  | plain form =>
    cases hpart
    exact h
  | array =>
    rw [OutputKind.split] at hpart
    split at hpart
    · next before separator hsplit =>
      cases hpart
      obtain ⟨hchars, -⟩ := (splitFirst?_eq_some_iff (by decide)).mp hsplit
      rw [List.append_assoc] at hchars
      exact .trans (.front hchars rfl) h
    · cases hpart
      exact h
  | truncate =>
    rw [OutputKind.split] at hpart
    split at hpart
    · next before digits hsplit =>
      simp only at hpart
      split at hpart <;> cases hpart
      exact .trans (.front (splitLast?_spec hsplit) rfl) h
    · cases hpart

theorem partOf_splitCall? {name : String} {inner : Slice} (h : splitCall? rest = some (name, inner)) :
    inner.PartOf rest := by
  obtain ⟨behind, opened, hname, hopened, hinner⟩ := splitCall?_cases h
  exact .trans (.before? hinner) (.trans (.trimEnd opened) (.trans (.after? hopened)
    (.trans (.trimStart behind) (.trans (.splitName? hname) (.trimStart rest)))))

theorem partOf_splitLoop? {item : String} (h : splitLoop? rest = some (item, code)) :
    code.PartOf rest := by
  simp only [splitLoop?, Option.bind_eq_bind, Option.bind_eq_some_iff, Prod.exists] at h
  obtain ⟨opened, hopened, inner, hinner, _, behind, hname, h⟩ := h
  have hinside : inner.PartOf rest := .trans (.before? hinner) (.trans (.after? hopened) (.trim rest))
  have hbehind : behind.PartOf rest := .trans (.splitName? hname) (.trans (.trimStart inner) hinside)
  split at h
  · cases h
  obtain ⟨collection, hcollection, h⟩ := Option.bind_eq_some_iff.mp h
  split at h
  · cases h
  cases h
  exact .trans (.afterWord? hcollection) (.trans (.trimStart behind) hbehind)

theorem partOf_afterElseIf? (h : afterElseIf? body = some rest) : rest.PartOf body := by
  rw [afterElseIf?] at h
  split at h
  · next behind hafter =>
    cases h
    exact .afterWord? hafter
  · split at h
    · next behind hafter =>
      exact .trans (.afterWord? h) (.trans (.trimStart behind) (.afterWord? hafter))
    · cases h

theorem gives_condition {build : Expression → Directive} (hrest : rest.PartOf body) (whole : Span)
    (hbuild : ∀ e, ∃ mark, (build e).marks body.span = [mark] ∧ mark.expressions = [e]) :
    Gives (Directive.Exact body) (readCondition rest whole >>= fun e => pure (build e)) := by
  rw [readCondition]
  split
  · exact gives_single hrest hbuild
  · rintro _ ⟨⟩

/-- A directive has its expressions where they say. -/
theorem gives_classify (body : Slice) : Gives (Directive.Exact body) (classify body) := by
  have htrimmed : body.trim.PartOf body := .trim body
  have hcases := classify_cases body
  generalize classify body = outcome at hcases ⊢
  cases hcases with
  | output houtput =>
    refine (gives_split _ (partOf_classifyOutput? houtput) body.span).bind fun part hpart => ?_
    exact gives_single hpart fun e => ⟨_, rfl, rfl⟩
  | forEach hrest hsplit =>
    have hcollection := (partOf_splitLoop? hsplit).trans (.trans (.afterWord? hrest) htrimmed)
    exact gives_single hcollection fun e => ⟨_, rfl, rfl⟩
  | word hword =>
    rintro _ ⟨⟩ mark hmark
    rcases Directive.ofWord?_cases hword with rfl | rfl | rfl | rfl | rfl | rfl <;>
      (obtain rfl := List.mem_singleton.mp hmark; nofun)
  | ifThen hrest =>
    exact gives_condition (.trans (.afterWord? hrest) htrimmed) body.span fun e => ⟨_, rfl, rfl⟩
  | elseIf hrest =>
    exact gives_condition (.trans (partOf_afterElseIf? hrest) htrimmed) body.span
      fun e => ⟨_, rfl, rfl⟩
  | define =>
    rintro _ ⟨⟩ mark hmark
    obtain rfl := List.mem_singleton.mp hmark
    nofun
  | @run rest inner name hrest hsplit =>
    have hinner : inner.PartOf body :=
      .trans (partOf_splitCall? hsplit) (.trans (.afterWord? hrest) htrimmed)
    have harguments : Gives (fun es => ∀ e ∈ es, e.Exact body) (readArguments inner) :=
      fun es hes e he => (readArguments_exact (splitCall?_start_pos hsplit) hes e he).mono hinner
    refine harguments.bind fun es hes => ?_
    rintro _ ⟨⟩ mark hmark
    obtain rfl := List.mem_singleton.mp hmark
    exact hes
  | statements =>
    have hstatements : Gives (fun ss => ∀ s ∈ ss, ∀ e ∈ s.mark.expressions, e.Exact body)
        (readStatements body) := fun ss => readStatements_exact
    refine hstatements.bind fun ss hss => ?_
    rintro _ ⟨⟩ mark hmark
    obtain ⟨s, hs, rfl⟩ := List.mem_map.mp hmark
    exact hss s hs
  | malformed => nofun

end Directives

/-! ### Templates -/

/-- The directives of a template that compiles are classified. -/
theorem exists_classified {parts : List Segment} {nodes : List Node} {body : Slice}
    (h : nodesOfSegments parts = .ok nodes) (hbody : .directive body ∈ parts) :
    ∃ d, classify body = .ok d := by
  obtain ⟨items, hitems, -⟩ := exists_of_nodesOfSegments h
  obtain ⟨item, hitem⟩ := exists_image_of_mapM hitems hbody
  obtain ⟨taken, hclassify, -⟩ := Item.eq_of_ofSegment hitem
  exact ⟨taken, hclassify⟩

/-- **Expressions stand exactly where they say.**  In a template that compiles, every expression that is
nested anywhere in a directive takes up some code of the blanked body of the directive, its children
lie in its place, and that code by itself is read as the expression, with all places inside of it. -/
theorem compile_exact {source : String} {c : Configuration} {t : Template}
    (h : Template.compile source c = .ok t) :
    ∃ delimiters parts, c.delimiters = .ok delimiters ∧
      segments delimiters source.toList = .ok parts ∧
      ∀ body, .directive body ∈ parts → ∃ d, classify body = .ok d ∧
        ∀ mark ∈ d.marks body.span, ∀ e ∈ mark.expressions, ∀ part ∈ e.parts,
          (body.start ≤ part.span.start ∧ part.span.start < part.span.stop ∧
            part.span.stop ≤ body.stop) ∧
          (∀ child ∈ part.children,
            part.span.start ≤ child.span.start ∧ child.span.stop ≤ part.span.stop) ∧
          ∃ before code after, body.chars = before ++ code ++ after ∧
            part.span.start = body.start + bytes before ∧
            part.span.stop = part.span.start + bytes code ∧
            readExpression ⟨part.span.start, code⟩ = .ok part := by
  obtain ⟨delimiters, parts, hdelimiters, hparts, hnodes, -⟩ := Template.compile_eq_ok h
  refine ⟨delimiters, parts, hdelimiters, hparts, fun body hbody => ?_⟩
  obtain ⟨d, hd⟩ := exists_classified hnodes hbody
  refine ⟨d, hd, fun mark hmark e he part hpart => ?_⟩
  have hagain : part.ReadAgain body := gives_classify body d hd mark hmark e he part hpart
  refine ⟨?_, fun child => hagain.children, ?_⟩
  all_goals
    obtain ⟨code, hcode, hne, hspan, hread⟩ := hagain
    rw [← hspan]
  · have hsize : bytes code.chars ≠ 0 := Nat.ne_of_gt (bytes_pos hne)
    obtain ⟨hstart, hstop⟩ := hcode.within
    exact ⟨hstart, by simp only [Slice.span, Slice.stop]; omega, hstop⟩
  · obtain ⟨before, after, hchars, hstart⟩ := hcode
    exact ⟨before, code.chars, after, by rw [hchars, List.append_assoc], hstart, rfl, hread⟩

/-- A bracketed operand behind a comment: the code of the whole counts the brackets, and that of the
operand does not. -/
theorem compile_exact_bracketed :
    (∃ t, Template.compile "<%= // é\n(a).b %>" {} = .ok t) ∧
    ∃ before code after, "=       (a).b ".toList = before ++ code ++ after ∧
      bytes before = 9 ∧ bytes code = 1 ∧
      readExpression ⟨11, code⟩ = .ok (.identifier ⟨11, 12⟩ "a") := by
  obtain ⟨t, ht⟩ : ∃ t, Template.compile "<%= // é\n(a).b %>" {} = .ok t := ⟨_, rfl⟩
  refine ⟨⟨t, ht⟩, ?_⟩
  obtain ⟨delimiters, parts, hdelimiters, hparts, hall⟩ := compile_exact ht
  obtain rfl : ⟨['<', '%'], ['%', '>']⟩ = delimiters := Except.ok.inj hdelimiters
  obtain rfl : [.directive ⟨2, "=       (a).b ".toList⟩] = parts := Except.ok.inj hparts
  obtain ⟨d, hd, hexact⟩ := hall _ List.mem_cons_self
  obtain rfl : .output .default (.member ⟨10, 15⟩ (.identifier ⟨11, 12⟩ "a") "b") = d :=
    Except.ok.inj hd
  obtain ⟨-, -, before, code, after, hchars, hstart, hstop, hread⟩ :=
    hexact _ List.mem_cons_self _ List.mem_cons_self (.identifier ⟨11, 12⟩ "a") (.tail _ (.head _))
  have hbefore : 11 = 2 + bytes before := hstart
  have hcode : 12 = 11 + bytes code := hstop
  exact ⟨before, code, after, hchars, by omega, by omega, hread⟩

end Stencil
