/-
Stencil/Proofs/Deriving.lean

What the grammar derives from tokens is read from them, places and all.  The tokens of an
operand leave behind some frames that nothing has closed yet, and `Leaves` says what these
are good for: closing them makes up the operand, so whoever closes the frames in front of
the operand cannot tell.  `ReadsAs` is the claim on an operand in a place that demands a
level, for every stack that does not get in its way (`Stops`), and `Phrase.IsRead` the
one on any phrase.

Together with the converse it makes reading and deriving the same thing: the main results
are `readAll_eq_ok_iff_makes` and, for code texts, `readStatements_eq_ok_iff`.
-/
import Stencil.Proofs.Recognizing

namespace Stencil

/-! ### Frames -/

/-- `Leaves level frames y x`: closing the frames around `y` makes up `x`.  In a place that demands
`level` no operator of a lower level is left, and where a postfix form may follow nothing is. -/
structure Leaves (level : Nat) (frames : List OpenConstruct) (y x : Operand) : Prop where
  closeAll : ∀ opened, closeAll (frames ++ opened) y = Stencil.closeAll opened x
  closeOperators : 0 < level → ∀ upTo ≤ level, ∀ opened,
    closeOperators upTo (frames ++ opened) y = Stencil.closeOperators upTo opened x
  tight : 10 ≤ level → frames = [] ∧ y = x

namespace Leaves

variable {level : Nat} {frames : List OpenConstruct} {x y : Operand}

theorem refl (level : Nat) (x : Operand) : Leaves level [] x x :=
  ⟨fun _ => rfl, fun _ _ _ _ => rfl, fun _ => ⟨rfl, rfl⟩⟩

/-- A frame that stands in front of the operand, where closing it makes up another operand. -/
theorem outward {level' : Nat} {c : OpenConstruct} {z : Operand} (h : Leaves level frames y x)
    (hall : ∀ opened, Stencil.closeAll (c :: opened) x = Stencil.closeAll opened z)
    (hoperators : 0 < level' → 0 < level ∧ level' ≤ level ∧ level' < 10 ∧ ∀ upTo ≤ level', ∀ opened,
      Stencil.closeOperators upTo (c :: opened) x = Stencil.closeOperators upTo opened z) :
    Leaves level' (frames ++ [c]) y z where
  closeAll opened := by
    rw [List.append_assoc, List.singleton_append, h.closeAll, hall]
  closeOperators hpos upTo hle opened := by
    obtain ⟨hlevel, hlevels, -, hclose⟩ := hoperators hpos
    rw [List.append_assoc, List.singleton_append, h.closeOperators hlevel upTo (Nat.le_trans hle hlevels),
      hclose upTo hle]
  tight hle := by
    obtain ⟨-, -, hlt, -⟩ := hoperators (by omega)
    omega

theorem unary (h : Leaves 9 frames y x) (hlevel : level ≤ 9) (start : Nat)
    (operator : UnaryOperator) :
    Leaves level (frames ++ [.unary start operator]) y
      (x.over start fun span => .unary span operator x.value) :=
  h.outward (fun _ => rfl) fun _ => ⟨by omega, hlevel, by omega, fun _ _ _ => rfl⟩

theorem binary {operator : BinaryOperator} (h : Leaves (operator.level + 1) frames y x)
    (hlevel : level ≤ operator.level) (l : Operand) :
    Leaves level (frames ++ [.binary l operator]) y
      (x.over l.extent.start fun span => .binary span operator l.value x.value) := by
  have hle := operator.level_le
  refine h.outward (fun _ => rfl) fun _ => ⟨by omega, by omega, by omega, fun upTo hupTo opened => ?_⟩
  rw [Stencil.closeOperators, if_pos (Nat.le_trans hupTo hlevel)]

theorem alternative (h : Leaves 0 frames y x) (c a : Operand) :
    Leaves 0 (frames ++ [.alternative c a.value]) y
      (x.over c.extent.start fun span => .conditional span c.value a.value x.value) :=
  h.outward (fun _ => rfl) (by omega)

theorem assign (h : Leaves 0 frames y x) (start : Nat) (n : String) :
    Leaves 0 (frames ++ [.assign start n]) y (x.over start fun span => .assign span n x.value) :=
  h.outward (fun _ => rfl) (by omega)

/-- A token that ends the expression closes all of its frames. -/
theorem step_ends (h : Leaves level frames y x) {t : Token} (ht : t.ends = true)
    (statements : List Statement) (opened : List OpenConstruct) (assignable : Bool) (span : Span) :
    Progress.step ⟨statements, frames ++ opened, .continuation y assignable⟩ t span =
      Progress.atClosing ⟨statements, opened, .continuation x false⟩ x t span := by
  have hstep : Progress.step ⟨statements, frames ++ opened, .continuation y assignable⟩ t span =
      Progress.atClosing ⟨statements, frames ++ opened, .continuation y assignable⟩ y t span := by
    cases t with
    | closing b => rfl
    | symbol s => cases s <;> first | rfl | cases ht
    | _ => cases ht
  rw [hstep]
  simp only [Progress.atClosing, h.closeAll]
  rfl

end Leaves

/-! ### Operands -/

/-- In a place that demands `level` the tokens are read as the operand. -/
def ReadsAs (ts : List (Token × Span)) (level : Nat) (x : Operand) : Prop :=
  ∀ assignable statements opened, (level = 0 → assignable = true) → Stops level opened →
    ∃ frames y a, Progress.run ⟨statements, opened, awaits assignable⟩ ts =
      some ⟨statements, frames ++ opened, .continuation y a⟩ ∧ Leaves level frames y x

namespace ReadsAs

variable {ts us vs : List (Token × Span)} {level : Nat} {x : Operand} {t : Token} {span : Span}
  {statements : List Statement} {opened : List OpenConstruct} {awaited : Awaited}

/-- What follows a single operand takes it as a whole. -/
theorem followed {z : Operand} (h : ReadsAs ts 10 x)
    (hnext : ∀ statements opened a,
      Progress.run ⟨statements, opened, .continuation x a⟩ us =
        some ⟨statements, opened, .continuation z false⟩) : ReadsAs (ts ++ us) level z := by
  intro assignable statements opened _ _
  obtain ⟨frames, y, a, hrun, hleaves⟩ :=
    h assignable statements opened (by omega) fun _ _ _ => by omega
  obtain ⟨rfl, rfl⟩ := hleaves.tight (Nat.le_refl 10)
  refine ⟨[], z, false, ?_, .refl _ _⟩
  rw [Progress.run_append, hrun]
  exact hnext statements opened a

/-- A token that begins an operand, and what is read behind it. -/
theorem of_begins (ht : t.begins = true)
    (h : ∀ assignable statements opened, ∃ a,
      (Progress.beginOperand ⟨statements, opened, awaits assignable⟩ assignable t span).bind
        (fun next => next.run us) = some ⟨statements, opened, .continuation x a⟩) :
    ReadsAs ((t, span) :: us) level x := by
  intro assignable statements opened _ _
  obtain ⟨a, hrun⟩ := h assignable statements opened
  exact ⟨[], x, a, by rw [Progress.run_cons, step_begins ht, hrun, List.nil_append], .refl _ _⟩

/-- An expression that a token ends, inside of a construct that no operator closes. -/
theorem closed (h : ReadsAs ts 0 x) (hopened : Stops 0 opened) (ht : t.ends = true) :
    Progress.run ⟨statements, opened, .expression⟩ (ts ++ [(t, span)]) =
      Progress.atClosing ⟨statements, opened, .continuation x false⟩ x t span := by
  obtain ⟨frames, y, a, hrun, hleaves⟩ := h true statements opened (fun _ => rfl) hopened
  have hrun : Progress.run ⟨statements, opened, .expression⟩ ts = _ := hrun
  rw [Progress.run_append, hrun, Option.bind_some, Progress.run_cons, hleaves.step_ends ht]
  cases Progress.atClosing _ _ _ _ <;> rfl

/-- An expression behind which nothing has been read yet. -/
theorem last (h : ReadsAs ts 0 x) (statements : List Statement) (opened : List OpenConstruct)
    (hopened : Stops 0 opened) :
    ∃ p, Progress.run ⟨statements, opened, .expression⟩ ts = some p ∧
      p.done? = Progress.done? ⟨statements, opened, .continuation x false⟩ ∧
      ∀ t span, t.ends = true →
        p.step t span = Progress.atClosing ⟨statements, opened, .continuation x false⟩ x t span := by
  obtain ⟨frames, y, a, hrun, hleaves⟩ := h true statements opened (fun _ => rfl) hopened
  refine ⟨_, hrun, ?_, fun t span ht => hleaves.step_ends ht statements opened a span⟩
  simp only [Progress.done?, hleaves.closeAll]
  rfl

/-! ### The forms of operands -/

theorem literal {value : Literal} (ht : Literal.ofToken? t = some value) :
    ReadsAs [(t, span)] level ⟨.literal span value, span⟩ := by
  have hbegins : t.begins = true := by
    cases t with
    | word w => cases w <;> first | rfl | cases ht
    | closing | symbol => cases ht
    | _ => rfl
  refine of_begins hbegins fun assignable statements opened => ⟨false, ?_⟩
  simp only [Progress.beginOperand, ht]
  rfl

theorem identifier (n : String) : ReadsAs [(.name n, span)] level ⟨.identifier span n, span⟩ :=
  of_begins rfl fun assignable _ _ => ⟨assignable, rfl⟩

theorem group {first last : Span} (h : ReadsAs ts 0 x) :
    ReadsAs ((.opening .round, first) :: (ts ++ [(.closing .round, last)])) level
      ⟨x.value, ⟨first.start, last.stop⟩⟩ :=
  of_begins rfl fun _ _ _ => ⟨false, h.closed (fun _ _ _ _ => rfl) rfl⟩

theorem member {n : String} {dot last : Span} (h : ReadsAs ts 10 x) :
    ReadsAs (ts ++ [(.symbol .dot, dot), (.name n, last)]) level
      (.upTo x.extent.start last fun span => .member span x.value n) :=
  h.followed fun _ _ _ => rfl

theorem index {i : Operand} {first last : Span} (h : ReadsAs ts 10 x) (hi : ReadsAs us 0 i) :
    ReadsAs (ts ++ (.opening .square, first) :: (us ++ [(.closing .square, last)])) level
      (.upTo x.extent.start last fun span => .index span x.value i.value) :=
  h.followed fun _ _ _ => hi.closed (fun _ _ _ _ => rfl) rfl

theorem unary {operator : UnaryOperator} (ht : UnaryOperator.ofToken? t = some operator)
    (h : ReadsAs ts 9 x) (hlevel : level ≤ 9) :
    ReadsAs ((t, span) :: ts) level
      (x.over span.start fun span => .unary span operator x.value) := by
  intro assignable statements opened _ _
  have hstep : Progress.step ⟨statements, opened, awaits assignable⟩ t span =
      some ⟨statements, .unary span.start operator :: opened, awaits false⟩ := by
    cases t with
    | symbol s => cases s <;> cases ht <;> exact step_begins rfl _
    | word w =>
      cases w <;> cases ht
      exact step_begins rfl _
    | _ => cases ht
  obtain ⟨frames, y, a, hrun, hleaves⟩ :=
    h false statements (.unary span.start operator :: opened) (by omega) fun _ _ _ => by omega
  refine ⟨_, y, a, ?_, hleaves.unary hlevel span.start operator⟩
  rw [Progress.run_cons, hstep, Option.bind_some, hrun, List.append_assoc, List.singleton_append]

/-- The operator closes the frames of its left operand and leaves what stands before it open. -/
theorem binary {operator : BinaryOperator} {l r : Operand}
    (ht : BinaryOperator.ofToken? t = some operator) (hl : ReadsAs ts operator.level l)
    (hr : ReadsAs us (operator.level + 1) r) (hlevel : level ≤ operator.level) :
    ReadsAs (ts ++ (t, span) :: us) level
      (r.over l.extent.start fun span => .binary span operator l.value r.value) := by
  intro assignable statements opened _ hopened
  have hge := operator.level_ge
  obtain ⟨frames, y, a, hrun, hleaves⟩ :=
    hl assignable statements opened (by omega) (hopened.mono hlevel)
  have hclose := hleaves.closeOperators (by omega) operator.level (Nat.le_refl _) opened
  rw [hopened _ hlevel operator.level_le] at hclose
  have hstep : Progress.step ⟨statements, frames ++ opened, .continuation y a⟩ t span =
      some ⟨statements, .binary l operator :: opened, awaits false⟩ := by
    show Progress.atContinuation _ y a t span = _
    simp only [Progress.atContinuation, ht, hclose]
    rfl
  -- an operator of the same level would close this one, so the right operand must bind tighter
  have hstops : Stops (operator.level + 1) (.binary l operator :: opened) := by
    intro upTo hupTo _ z
    rw [closeOperators, if_neg (by omega)]
  obtain ⟨frames', y', a', hrun', hleaves'⟩ := hr false statements _ (by omega) hstops
  refine ⟨_, y', a', ?_, hleaves'.binary hlevel l⟩
  rw [Progress.run_append, hrun, Option.bind_some, Progress.run_cons, hstep, Option.bind_some, hrun',
    List.append_assoc, List.singleton_append]

theorem conditional {c a b : Operand} {question colon : Span} (hc : ReadsAs ts 3 c)
    (ha : ReadsAs us 0 a) (hb : ReadsAs vs 0 b) :
    ReadsAs (ts ++ (.symbol .question, question) :: (us ++ (.symbol .colon, colon) :: vs)) 0
      (b.over c.extent.start fun span => .conditional span c.value a.value b.value) := by
  intro assignable statements opened _ hopened
  obtain ⟨frames, y, e, hrun, hleaves⟩ :=
    hc assignable statements opened (by omega) (hopened.mono (by omega))
  -- the question mark closes every operator of the condition, and the colon the whole consequent
  have hclose := hleaves.closeOperators (by omega) 0 (Nat.zero_le _) opened
  rw [hopened 0 (Nat.le_refl 0) (by omega)] at hclose
  have hstep : Progress.step ⟨statements, frames ++ opened, .continuation y e⟩
      (.symbol .question) question = some ⟨statements, .consequent c :: opened, .expression⟩ := by
    show Progress.atContinuation _ y e (.symbol .question) question = _
    simp only [Progress.atContinuation, BinaryOperator.ofToken?, hclose]
  have hcolon : Progress.run ⟨statements, .consequent c :: opened, .expression⟩
      (us ++ [(.symbol .colon, colon)]) =
        some ⟨statements, .alternative c a.value :: opened, .expression⟩ :=
    ha.closed (fun _ _ _ _ => rfl) rfl
  obtain ⟨frames', y', e', hrun', hleaves'⟩ :=
    hb true statements (.alternative c a.value :: opened) (fun _ => rfl) fun _ _ _ _ => rfl
  have hrun' : Progress.run ⟨statements, .alternative c a.value :: opened, .expression⟩ vs = _ := hrun'
  refine ⟨_, y', e', ?_, hleaves'.alternative c a⟩
  rw [Progress.run_append, hrun, Option.bind_some, Progress.run_cons, hstep, Option.bind_some,
    List.append_cons us, Progress.run_append, hcolon, Option.bind_some, hrun', List.append_assoc,
    List.singleton_append]

theorem assign {n : String} {sign : Span} (h : ReadsAs ts 0 x) :
    ReadsAs ((.name n, span) :: (.symbol .assign, sign) :: ts) 0
      (x.over span.start fun span => .assign span n x.value) := by
  intro assignable statements opened hassignable _
  -- at level zero an expression is awaited, so a name that comes first may be assigned to
  obtain rfl := hassignable rfl
  obtain ⟨frames, y, a, hrun, hleaves⟩ :=
    h true statements (.assign span.start n :: opened) (fun _ => rfl) fun _ _ _ _ => rfl
  refine ⟨_, y, a, ?_, hleaves.assign span.start n⟩
  rw [Progress.run_cons, step_begins rfl, List.append_assoc, List.singleton_append]
  exact hrun

end ReadsAs

/-! ### Phrases -/

/-- The tokens are read as the phrase, wherever it may stand. -/
def Phrase.IsRead (ts : List (Token × Span)) : Phrase → Prop
  | .operand level x => ReadsAs ts level x
  | .leadingItems es => ∀ (form : ItemForm) statements opened,
    Progress.run ⟨statements, form.held [] :: opened, .expression⟩ ts =
      some ⟨statements, form.held es.reverse :: opened, .expression⟩
  | .items es => ∀ (form : ItemForm) statements opened last,
    Progress.run ⟨statements, form.held [] :: opened, .expression⟩
        (ts ++ [(.closing form.bracket, last)]) =
      some ⟨statements, opened, .continuation (form.build es last) false⟩
  | .leadingEntries es => ∀ start statements opened,
    Progress.run ⟨statements, opened, .key start []⟩ ts =
      some ⟨statements, opened, .key start es.reverse⟩
  | .entries es => ∀ start statements opened last,
    Progress.run ⟨statements, opened, .key start []⟩ (ts ++ [(.closing .curly, last)]) =
      some ⟨statements, opened, .continuation (.upTo start last fun span => .object span es) false⟩
  | .ended ss => Progress.start.run ts = some ⟨ss.reverse, [], .expression⟩
  | .declaring ss => Progress.start.run ts = some ⟨ss.reverse, [], .declarator⟩
  | .declared ss => ∃ p, Progress.start.run ts = some p ∧ p.done? = some ss ∧ ∀ span,
    p.step (.symbol .semicolon) span = some ⟨ss.reverse, [], .expression⟩ ∧
      p.step (.symbol .comma) span = some ⟨ss.reverse, [], .declarator⟩
  | .program ss => ∃ p, Progress.start.run ts = some p ∧ p.done? = some ss ∧ ∀ span,
    p.step (.symbol .semicolon) span = some ⟨ss.reverse, [], .expression⟩

theorem ItemForm.stops (form : ItemForm) (es : List Expression) (opened : List OpenConstruct) :
    Stops 0 (form.held es :: opened) := by
  cases form <;> exact fun _ _ _ _ => rfl

/-- A key and the colon behind it. -/
theorem run_key {t : Token} {key : String} (hkey : keyOfToken? t = some key)
    (statements : List Statement) (opened : List OpenConstruct) (start : Nat)
    (es : List (String × Expression)) (span colon : Span) (ts : List (Token × Span)) :
    Progress.run ⟨statements, opened, .key start es⟩ ((t, span) :: (.symbol .colon, colon) :: ts) =
      Progress.run ⟨statements, .object start es key :: opened, .expression⟩ ts := by
  have hstep : Progress.step ⟨statements, opened, .key start es⟩ t span =
      some ⟨statements, opened, .colon start es key⟩ := by
    cases t with
    | closing | opening | word | symbol => cases hkey
    | _ =>
      cases hkey
      rfl
  rw [Progress.run_cons, hstep]
  rfl

theorem Makes.isRead {phrase : Phrase} {ts : List (Token × Span)} (h : Makes phrase ts) :
    phrase.IsRead ts := by
  -- by induction on the derivation; the forms of operands have their lemmas, and the rest are lists and
  -- programs
  induction h with
  | literal ht => exact .literal ht
  | identifier => exact .identifier _
  | group _ ih => exact ReadsAs.group ih
  | @array _ _ _ first last _ ih =>
    exact .of_begins rfl fun _ statements opened => ⟨false, ih (.array first.start) statements opened last⟩
  | @object _ _ _ first last _ ih =>
    exact .of_begins rfl fun _ statements opened => ⟨false, ih first.start statements opened last⟩
  | member _ ih => exact ReadsAs.member ih
  | index _ _ ih ihi => exact ReadsAs.index ih ihi
  | @call _ x _ _ _ _ last _ _ ih ihes =>
    exact ReadsAs.followed ih fun statements opened _ => ihes (.call x) statements opened last
  | unary ht _ hlevel ih => exact ReadsAs.unary ht ih hlevel
  | binary ht _ _ hlevel ihl ihr => exact ReadsAs.binary ht ihl ihr hlevel
  | conditional _ _ _ ihc iha ihb => exact ReadsAs.conditional ihc iha ihb
  | assign _ ih => exact ReadsAs.assign ih
  | noItems => exact fun _ _ _ => rfl
  -- a list is read in one of two forms, of an array or of a call, which hold their items alike; the
  -- comma closes the item
  | leadingItem _ _ ihes ihx =>
    intro form statements opened
    rw [Progress.run_append, ihes form statements opened, Option.bind_some,
      ReadsAs.closed ihx (form.stops _ opened) rfl, List.reverse_append]
    cases form <;> rfl
  -- behind a comma the bracket comes where an item is awaited, behind an item it closes that
  | itemsEnd _ ih =>
    intro form statements opened last
    rw [Progress.run_append, ih form statements opened, Option.bind_some]
    cases form <;> simp [Progress.step, Progress.atExpression, ItemForm.held, ItemForm.bracket,
      ItemForm.build, Progress.behind]
  | lastItem _ _ ihes ihx =>
    intro form statements opened last
    rw [List.append_assoc, Progress.run_append, ihes form statements opened, Option.bind_some,
      ReadsAs.closed ihx (form.stops _ opened) (by rfl)]
    cases form <;> simp [Progress.atClosing, closeAll, ItemForm.held, ItemForm.bracket,
      ItemForm.build, Progress.behind]
  | noEntries => exact fun _ _ _ => rfl
  -- entries are items with a key in front
  | leadingEntry _ hkey _ ihes ihx =>
    intro start statements opened
    rw [Progress.run_append, ihes start statements opened, Option.bind_some, run_key hkey,
      ReadsAs.closed ihx (fun _ _ _ _ => rfl) rfl, List.reverse_append]
    rfl
  | entriesEnd _ ih =>
    intro start statements opened last
    rw [Progress.run_append, ih start statements opened, Option.bind_some]
    simp [Progress.step, Progress.behind]
  | lastEntry _ hkey _ ihes ihx =>
    intro start statements opened last
    rw [List.append_assoc, Progress.run_append, ihes start statements opened, Option.bind_some,
      List.cons_append, List.cons_append, run_key hkey, ReadsAs.closed ihx (fun _ _ _ _ => rfl) rfl]
    simp [Progress.atClosing, closeAll, Progress.behind]
  | noStatements => rfl
  -- what a program leaves behind is known by what a semicolon does to it
  | semicolon _ ih =>
    obtain ⟨p, hrun, -, hstep⟩ := ih
    rw [Phrase.IsRead, Progress.run_append, hrun, Option.bind_some, Progress.run_cons, hstep]
    rfl
  | declareWord _ ih =>
    rw [Phrase.IsRead] at ih
    rw [Phrase.IsRead, Progress.run_append, ih]
    rfl
  | comma _ ih =>
    obtain ⟨p, hrun, -, hstep⟩ := ih
    rw [Phrase.IsRead, Progress.run_append, hrun, Option.bind_some, Progress.run_cons, (hstep _).2]
    rfl
  -- a declaration can end, or go on with a comma
  | @declareName ss n _ _ _ ih =>
    rw [Phrase.IsRead] at ih
    refine ⟨⟨ss.reverse, [], .declared n⟩, ?_, ?_, fun _ => ⟨?_, ?_⟩⟩
    · rw [Progress.run_append, ih]
      rfl
    · simp [Progress.done?, Progress.finish]
    · simp [Progress.step, Progress.finish]
    · simp [Progress.step, Progress.finish]
  -- the value is closed by what comes behind it, or by the end of the code
  | @declareValue ss n x _ _ _ _ _ _ ih ihx =>
    rw [Phrase.IsRead] at ih
    obtain ⟨p, hrun, hdone, hstep⟩ :=
      ReadsAs.last ihx ss.reverse [.declare n] fun _ _ _ _ => rfl
    refine ⟨p, ?_, ?_, fun _ => ⟨?_, ?_⟩⟩
    · rw [Progress.run_append, ih]
      exact hrun
    · rw [hdone]
      simp [Progress.done?, closeAll, Progress.finish]
    · rw [hstep _ _ rfl]
      simp [Progress.atClosing, closeAll, Progress.finish]
    · rw [hstep _ _ rfl]
      simp [Progress.atClosing, closeAll, Progress.finish]
  -- an empty row of statements, or one that a semicolon ends, awaits an expression
  | programEnded _ ih =>
    rw [Phrase.IsRead] at ih
    exact ⟨_, ih, by simp [Progress.done?], fun _ => rfl⟩
  | programDeclared _ ih =>
    obtain ⟨p, hrun, hdone, hstep⟩ := ih
    exact ⟨p, hrun, hdone, fun span => (hstep span).1⟩
  -- an expression that is a statement has nothing open around it
  | @evaluate ss x _ _ _ _ ih ihx =>
    rw [Phrase.IsRead] at ih
    obtain ⟨p, hrun, hdone, hstep⟩ :=
      ReadsAs.last ihx ss.reverse [] fun _ _ _ _ => rfl
    refine ⟨p, ?_, ?_, fun _ => ?_⟩
    · rw [Progress.run_append, ih]
      exact hrun
    · rw [hdone]
      simp [Progress.done?, closeAll, Progress.finish]
    · rw [hstep _ _ rfl]
      simp [Progress.atClosing, closeAll, Progress.finish]

/-- Tokens are read as the statements that the grammar derives from them, and as no others. -/
theorem readAll_eq_ok_iff_makes {stop : Span} {ts : List (Token × Span)} {ss : List Statement} :
    Progress.start.readAll stop ts = .ok ss ↔ Makes (.program ss) ts := by
  refine ⟨makes_of_readAll, fun h => ?_⟩
  obtain ⟨p, hrun, hdone, -⟩ := h.isRead
  exact Progress.readAll_eq_ok_iff.mpr ⟨p, hrun, hdone⟩

/-- A code text is read where it has tokens and the grammar derives statements from them. -/
theorem readStatements_eq_ok_iff {code : Slice} {ss : List Statement} :
    readStatements code = .ok ss ↔ ∃ ts, Token.scan code = .ok ts ∧ Makes (.program ss) ts := by
  rw [readStatements]
  rcases hscan : Token.scan code with span | ts
  · simp [bind, Except.bind]
  · have hiff : Progress.start.readAll (.at code.stop) ts = .ok ss ↔ _ := readAll_eq_ok_iff_makes
    simp only [bind, Except.bind, Except.ok.injEq, exists_eq_left', ← hiff]
    cases Progress.start.readAll (.at code.stop) ts <;> simp

end Stencil
