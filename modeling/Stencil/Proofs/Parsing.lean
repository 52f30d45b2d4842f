/-
Stencil/Proofs/Parsing.lean

Reading the tokens of an expression gives the expression back.

`Reaches tokens p goal` says that from `p` all of the tokens can be read, whatever
their places, and lead to a progress with `goal`.  The tokens of an expression leave
behind the construct they stand in some frames that are still open and an operand:
the operators, conditionals and assignments along the right edge of the expression,
which nothing has closed yet.  `Pending` lists the frames that may be left, and
`Pending.closeAll` says that closing them makes up the expression.

A place demands a least level.  `Stops` says of the open constructs at a place that
an operator of the demanded level would not close any of them; so whatever the
tokens of the operand close are frames of the operand itself.

The main result is `reads_tokens`.
-/
import Stencil.Proofs.Printing

namespace Stencil

/-! ### Runs of tokens -/

/-- The tokens can be read in order, at whatever places, and lead where `goal` holds. -/
def Reaches : List Token → Progress → (Progress → Prop) → Prop
  | [], p, goal => goal p
  | token :: tokens, p, goal => ∀ span, ∃ next, p.step token span = some next ∧ Reaches tokens next goal

variable {tokens others : List Token} {p : Progress} {goal goal' : Progress → Prop}

theorem Reaches.mono (h : Reaches tokens p goal) (hgoal : ∀ q, goal q → goal' q) :
    Reaches tokens p goal' := by
  induction tokens generalizing p with
  | nil => exact hgoal p h
  | cons token tokens ih =>
    intro span
    obtain ⟨next, hstep, hrest⟩ := h span
    exact ⟨next, hstep, ih hrest⟩

theorem Reaches.append (h : Reaches tokens p goal) (hgoal : ∀ q, goal q → Reaches others q goal') :
    Reaches (tokens ++ others) p goal' := by
  induction tokens generalizing p with
  | nil => exact hgoal p h
  | cons token tokens ih =>
    intro span
    obtain ⟨next, hstep, hrest⟩ := h span
    exact ⟨next, hstep, ih hrest⟩

/-- What the machine reads is where the tokens lead. -/
theorem Reaches.readAll (stop : Span) {placed : List (Token × Span)}
    (h : Reaches (placed.map Prod.fst) p goal) :
    ∃ q, goal q ∧ p.readAll stop placed = q.readAll stop [] := by
  induction placed generalizing p with
  | nil => exact ⟨p, h, rfl⟩
  | cons entry placed ih =>
    obtain ⟨token, span⟩ := entry
    obtain ⟨next, hstep, hrest⟩ := h span
    obtain ⟨q, hq, hread⟩ := ih hrest
    refine ⟨q, hq, ?_⟩
    rw [← hread, Progress.readAll, hstep]

/-! ### Frames along the right edge -/

/-- `Pending level frames x e`: closing the frames around the operand `x` makes up `e`.  In a place that
demands `level` only those frames are left that bind as tightly. -/
inductive Pending : Nat → List OpenConstruct → Operand → Expression → Prop
  | operand {level : Nat} {x : Operand} {e : Expression} :
      x.value.bare = e.bare → Pending level [] x e
  | unary {level start : Nat} {span : Span} {operator : UnaryOperator} {frames : List OpenConstruct}
      {x : Operand} {e : Expression} :
      Pending 9 frames x e → level ≤ 9 →
      Pending level (frames ++ [.unary start operator]) x (.unary span operator e)
  | binary {level : Nat} {span : Span} {operator : BinaryOperator} {frames : List OpenConstruct}
      {left x : Operand} {l r : Expression} :
      left.value.bare = l.bare → Pending (operator.level + 1) frames x r → level ≤ operator.level →
      Pending level (frames ++ [.binary left operator]) x (.binary span operator l r)
  | alternative {span : Span} {frames : List OpenConstruct} {condition x : Operand}
      {consequent c a b : Expression} :
      condition.value.bare = c.bare → consequent.bare = a.bare → Pending 0 frames x b →
      Pending 0 (frames ++ [.alternative condition consequent]) x (.conditional span c a b)
  | assign {start : Nat} {span : Span} {name : String} {frames : List OpenConstruct} {x : Operand}
      {e : Expression} :
      Pending 0 frames x e → Pending 0 (frames ++ [.assign start name]) x (.assign span name e)

theorem BinaryOperator.level_le (operator : BinaryOperator) : operator.level ≤ 8 := by
  cases operator <;> decide

theorem BinaryOperator.level_ge (operator : BinaryOperator) : 3 ≤ operator.level := by
  cases operator <;> decide

namespace Pending

variable {level : Nat} {frames : List OpenConstruct} {x : Operand} {e : Expression}

/-- Where a postfix form may follow, no frame is left. -/
theorem eq_nil (h : Pending 10 frames x e) : frames = [] ∧ x.value.bare = e.bare := by
  cases h with
  | operand h => exact ⟨rfl, h⟩
  | unary _ hle => omega
  | @binary _ _ operator _ _ _ _ _ _ _ hle =>
    have hlevel := operator.level_le
    omega

theorem closeAll (h : Pending level frames x e) (opened : List OpenConstruct) :
    ∃ y, Stencil.closeAll (frames ++ opened) x = Stencil.closeAll opened y ∧
      y.value.bare = e.bare := by
  induction h generalizing opened with
  | @operand _ x _ h => exact ⟨x, rfl, h⟩
  | unary _ _ ih =>
    obtain ⟨y, hclose, hy⟩ := ih (.unary _ _ :: opened)
    rw [List.append_assoc, List.singleton_append, hclose]
    exact ⟨_, rfl, by rw [Expression.bare, ← hy]; rfl⟩
  | binary hleft _ _ ih =>
    obtain ⟨y, hclose, hy⟩ := ih (.binary _ _ :: opened)
    rw [List.append_assoc, List.singleton_append, hclose]
    exact ⟨_, rfl, by rw [Expression.bare, ← hy, ← hleft]; rfl⟩
  | alternative hcondition hconsequent _ ih =>
    obtain ⟨y, hclose, hy⟩ := ih (.alternative _ _ :: opened)
    rw [List.append_assoc, List.singleton_append, hclose]
    exact ⟨_, rfl, by rw [Expression.bare, ← hy, ← hcondition, ← hconsequent]; rfl⟩
  | assign _ ih =>
    obtain ⟨y, hclose, hy⟩ := ih (.assign _ _ :: opened)
    rw [List.append_assoc, List.singleton_append, hclose]
    exact ⟨_, rfl, by rw [Expression.bare, ← hy]; rfl⟩

/-- An operator of the demanded level, or of a lower one, closes all frames of an operand. -/
theorem closeOperators (h : Pending level frames x e) (hlevel : 0 < level) {upTo : Nat}
    (hupTo : upTo ≤ level) (opened : List OpenConstruct) :
    ∃ y, Stencil.closeOperators upTo (frames ++ opened) x = Stencil.closeOperators upTo opened y ∧
      y.value.bare = e.bare := by
  induction h generalizing opened with
  | @operand _ x _ h => exact ⟨x, rfl, h⟩
  | unary _ hle ih =>
    obtain ⟨y, hclose, hy⟩ := ih (by decide) (by omega) (.unary _ _ :: opened)
    rw [List.append_assoc, List.singleton_append, hclose]
    exact ⟨_, rfl, by rw [Expression.bare, ← hy]; rfl⟩
  | @binary _ _ operator _ left _ _ _ hleft _ hle ih =>
    obtain ⟨y, hclose, hy⟩ := ih (by omega) (by omega) (.binary left operator :: opened)
    rw [List.append_assoc, List.singleton_append, hclose, Stencil.closeOperators,
      if_pos (by omega)]
    exact ⟨_, rfl, by rw [Expression.bare, ← hy, ← hleft]; rfl⟩
  | alternative => omega
  | assign => omega

end Pending

/-! ### Places for expressions -/

/-- What is awaited where an expression or an operand begins; only an expression may be an assignment. -/
def awaits (assignable : Bool) : Awaited := if assignable then .expression else .operand

/-- No operator of the level, or of a higher one, closes any of the open constructs. -/
def Stops (level : Nat) (opened : List OpenConstruct) : Prop :=
  ∀ upTo, level ≤ upTo → upTo ≤ 8 → ∀ x, closeOperators upTo opened x = (opened, x)

theorem Stops.mono {level level' : Nat} {opened : List OpenConstruct} (h : Stops level opened)
    (hle : level ≤ level') : Stops level' opened :=
  fun upTo hupTo => h upTo (by omega)

/-- The expression has been read, and its frames are left. -/
def Behind (statements : List Statement) (opened : List OpenConstruct) (level : Nat) (e : Expression)
    (p : Progress) : Prop :=
  ∃ frames x assignable, p = ⟨statements, frames ++ opened, .continuation x assignable⟩ ∧
    Pending level frames x e

/-- In a place that demands `level` the tokens read as `e`. -/
def Reads (tokens : List Token) (level : Nat) (e : Expression) : Prop :=
  ∀ assignable statements opened, (level = 0 → assignable = true) → Stops level opened →
    Reaches tokens ⟨statements, opened, awaits assignable⟩ (Behind statements opened level e)

section Places

variable {assignable : Bool} {statements : List Statement} {opened : List OpenConstruct}
  {level : Nat} {e : Expression}

theorem behind_operand {x : Operand} (h : x.value.bare = e.bare) :
    Behind statements opened level e ⟨statements, opened, .continuation x assignable⟩ :=
  ⟨[], x, assignable, rfl, .operand h⟩

/-- What stands in front of an operand belongs to the frames that the operand leaves. -/
theorem Behind.outward {construct : OpenConstruct} {level' : Nat} {e' : Expression}
    (hpending : ∀ frames x, Pending level' frames x e' → Pending level (frames ++ [construct]) x e)
    (q : Progress) (h : Behind statements (construct :: opened) level' e' q) :
    Behind statements opened level e q := by
  obtain ⟨frames, x, a, rfl, hx⟩ := h
  refine ⟨frames ++ [construct], x, a, ?_, hpending frames x hx⟩
  rw [List.append_assoc]
  rfl

/-- An expression is read inside of any construct that no operator closes. -/
theorem Reads.inside {construct : OpenConstruct} (h : Reads tokens 0 e)
    (hconstruct : ∀ upTo x, closeOperators upTo (construct :: opened) x = (construct :: opened, x)) :
    Reaches tokens ⟨statements, construct :: opened, .expression⟩
      (Behind statements (construct :: opened) 0 e) :=
  h true statements _ (fun _ => rfl) fun upTo _ _ => hconstruct upTo

/-- What stands behind an object takes it as a whole, since nothing binds tighter. -/
theorem Reads.followed {object : Expression} (h : Reads tokens 10 object)
    (hnext : ∀ statements opened (x : Operand) assignable, x.value.bare = object.bare →
      Reaches others ⟨statements, opened, .continuation x assignable⟩
        (Behind statements opened level e)) :
    Reads (tokens ++ others) level e := by
  intro assignable statements opened _ _
  refine (h assignable statements opened (by omega) fun _ _ _ => by omega).append ?_
  rintro _ ⟨frames, x, a, rfl, hpending⟩
  obtain ⟨rfl, hx⟩ := hpending.eq_nil
  exact hnext statements opened x a hx

/-- A token that begins an operand. -/
def Token.begins : Token → Bool
  | .closing _ | .symbol .semicolon | .word .declareWord => false
  | _ => true

theorem step_begins {token : Token} (h : token.begins = true) (span : Span) :
    Progress.step ⟨statements, opened, awaits assignable⟩ token span =
      Progress.beginOperand ⟨statements, opened, awaits assignable⟩ assignable token span := by
  cases assignable with
  | false => rfl
  | true =>
    show Progress.atExpression _ token span = _
    unfold Progress.atExpression
    split <;> first | rfl | cases h

/-- A token behind which an expression cannot go on. -/
def Token.ends : Token → Bool
  | .closing _ | .symbol .comma | .symbol .colon | .symbol .semicolon => true
  | _ => false

theorem step_ends (token : Token) (h : token.ends = true) {frames : List OpenConstruct} {x : Operand}
    (hpending : Pending level frames x e) (span : Span) :
    ∃ y : Operand, y.value.bare = e.bare ∧
      Progress.step ⟨statements, frames ++ opened, .continuation x assignable⟩ token span =
        Progress.atClosing ⟨statements, opened, .continuation y false⟩ y token span := by
  obtain ⟨y, hclose, hy⟩ := hpending.closeAll opened
  refine ⟨y, hy, ?_⟩
  have hstep : Progress.step ⟨statements, frames ++ opened, .continuation x assignable⟩ token span =
      Progress.atClosing ⟨statements, frames ++ opened, .continuation x assignable⟩ x token span := by
    cases token with
    | closing b => rfl
    | symbol s => cases s <;> first | rfl | cases h
    | _ => cases h
  rw [hstep]
  simp only [Progress.atClosing, hclose]
  rfl

/-- Any expression may stand in round brackets, which leave no trace. -/
theorem Reads.group (h : Reads tokens 0 e) (level : Nat) :
    Reads (.opening .round :: (tokens ++ [.closing .round])) level e := by
  intro assignable statements opened _ _ span
  rw [step_begins rfl]
  refine ⟨_, rfl, ?_⟩
  refine (h.inside fun _ _ => rfl).append ?_
  rintro _ ⟨frames, x, a, rfl, hpending⟩ last
  obtain ⟨y, hy, hstep⟩ := step_ends (.closing .round) rfl hpending last
  exact ⟨_, hstep, behind_operand hy⟩

theorem Reads.bracketed (h : ∀ level ≤ e.level, Reads tokens level e) (level : Nat) :
    Reads (bracketed level e.level tokens) level e := by
  rw [Stencil.bracketed]
  split
  · next hle => exact h level hle
  · exact (h 0 (Nat.zero_le _)).group level

end Places

/-! ### Items and entries -/

/-- The constructs that hold items. -/
inductive ItemForm where
  | array (start : Nat)
  | call (callee : Operand)

namespace ItemForm

/-- The construct with the items read so far, last first. -/
def held : ItemForm → List Expression → OpenConstruct
  | .array start, items => .array start items
  | .call callee, items => .call callee items

/-- The bracket that ends the items. -/
def bracket : ItemForm → Bracket
  | .array _ => .square
  | .call _ => .round

/-- The finished construct. -/
def build (items : List Expression) (last : Span) : ItemForm → Operand
  | .array start => .upTo start last fun span => .array span items
  | .call callee => .upTo callee.extent.start last fun span => .call span callee.value items

end ItemForm

section Items

variable {quote : Char} {statements : List Statement} {opened : List OpenConstruct}

theorem reaches_items (form : ItemForm) {items : List Expression}
    (hread : ∀ e ∈ items, Reads (e.tokens quote) 0 e) (before : List Expression) :
    Reaches (tokensOfItems quote items ++ [.closing form.bracket])
      ⟨statements, form.held before :: opened, .expression⟩
      fun q => ∃ read last, bareAll read = bareAll items ∧
        q = ⟨statements, opened, .continuation (form.build (before.reverse ++ read) last) false⟩ := by
  -- by induction on the items, for whatever the list holds already
  induction items generalizing before with
  | nil =>
    intro last
    cases form <;> exact ⟨_, rfl, [], last, rfl, by rw [List.append_nil]; rfl⟩
  | cons e items ih =>
    -- no operator of an item closes the list around it
    have hheld : ∀ upTo x, closeOperators upTo (form.held before :: opened) x =
        (form.held before :: opened, x) := by
      cases form <;> exact fun _ _ => rfl
    rw [tokensOfItems, List.append_assoc]
    refine ((hread e List.mem_cons_self).inside hheld).append ?_
    rintro _ ⟨frames, x, a, rfl, hpending⟩
    -- behind the item comes the bracket, or a comma and the next item
    cases items with
    | nil =>
      intro last
      obtain ⟨y, hy, hstep⟩ := step_ends (.closing form.bracket) rfl hpending last
      refine ⟨_, hstep.trans ?_, [y.value], last, by rw [bareAll, hy]; rfl, rfl⟩
      cases form <;>
        simp [Progress.atClosing, ItemForm.held, ItemForm.bracket, ItemForm.build, closeAll,
          Progress.behind]
    | cons e' items =>
      intro comma
      obtain ⟨y, hy, hstep⟩ := step_ends (.symbol .comma) rfl hpending comma
      refine ⟨⟨statements, form.held (y.value :: before) :: opened, .expression⟩, hstep.trans ?_, ?_⟩
      · cases form <;> rfl
      · refine (ih (fun e he => hread e (List.mem_cons_of_mem _ he)) (y.value :: before)).mono ?_
        rintro _ ⟨read, last, hbare, rfl⟩
        refine ⟨y.value :: read, last, by rw [bareAll, hy, hbare]; rfl, ?_⟩
        rw [List.reverse_cons, List.append_assoc]
        rfl

theorem reaches_entries (hquote : IsQuote quote) {entries : List (String × Expression)}
    (hread : ∀ entry ∈ entries, Reads (entry.2.tokens quote) 0 entry.2) (start : Nat)
    (before : List (String × Expression)) :
    Reaches (tokensOfEntries quote entries ++ [.closing .curly])
      ⟨statements, opened, .key start before⟩
      fun q => ∃ read last, bareEntries read = bareEntries entries ∧
        q = ⟨statements, opened, .continuation
          (.upTo start last fun span => .object span (before.reverse ++ read)) false⟩ := by
  -- by induction on the entries, for whatever the object holds already
  induction entries generalizing before with
  | nil =>
    intro last
    exact ⟨_, rfl, [], last, rfl, by rw [List.append_nil]; rfl⟩
  | cons entry entries ih =>
    obtain ⟨key, e⟩ := entry
    rw [tokensOfEntries, List.cons_append, List.cons_append, List.append_assoc]
    intro place
    -- a key is printed as a quoted text, which reads back as the key
    have hkey : keyOfToken? (textToken quote key) = some key := by
      rw [textToken, keyOfToken?, String.toList_ofList, unescape_quoteText hquote,
        String.ofList_toList]
    refine ⟨⟨statements, opened, .colon start before key⟩, ?_, fun colon =>
      ⟨⟨statements, .object start before key :: opened, .expression⟩, rfl, ?_⟩⟩
    · show (keyOfToken? (textToken quote key)).map
        (fun key => (⟨statements, opened, .colon start before key⟩ : Progress)) = _
      rw [hkey]
      rfl
    · refine ((hread (key, e) List.mem_cons_self).inside fun _ _ => rfl).append ?_
      rintro _ ⟨frames, x, a, rfl, hpending⟩
      -- behind the value comes the bracket, or a comma and the next key
      cases entries with
      | nil =>
        intro last
        obtain ⟨y, hy, hstep⟩ := step_ends (.closing .curly) rfl hpending last
        refine ⟨_, hstep, [(key, y.value)], last, by rw [bareEntries, hy]; rfl, ?_⟩
        simp [Progress.behind]
      | cons entry' entries =>
        intro comma
        obtain ⟨y, hy, hstep⟩ := step_ends (.symbol .comma) rfl hpending comma
        refine ⟨_, hstep, (ih (fun entry h => hread entry (List.mem_cons_of_mem _ h)) _).mono ?_⟩
        rintro _ ⟨read, last, hbare, rfl⟩
        refine ⟨(key, y.value) :: read, last, by rw [bareEntries, hy, hbare]; rfl, ?_⟩
        rw [List.reverse_cons, List.append_assoc]
        rfl

end Items

/-! ### Expressions -/

section Expressions

variable {quote : Char}

theorem reads_literal (hquote : IsQuote quote) (value : Literal) (span : Span) (level : Nat) :
    Reads [value.token quote] level (.literal span value) := by
  intro assignable statements opened _ _ place
  have hliteral : Literal.ofToken? (value.token quote) = some value := by
    cases value with
    | text t =>
      rw [Literal.token, textToken, Literal.ofToken?, String.toList_ofList,
        unescape_quoteText hquote, String.ofList_toList]
    | bool b => cases b <;> rfl
    | _ => rfl
  have hbegins : (value.token quote).begins = true := by
    cases value with
    | bool b => cases b <;> rfl
    | _ => rfl
  have hstep : Progress.step ⟨statements, opened, awaits assignable⟩ (value.token quote) place =
      some ⟨statements, opened, .continuation ⟨.literal place value, place⟩ false⟩ := by
    rw [step_begins hbegins]
    simp only [Progress.beginOperand, hliteral]
    rfl
  exact ⟨_, hstep, behind_operand rfl⟩

theorem reads_unary {operator : UnaryOperator} {operand : Expression} {tokens : List Token}
    (h : Reads tokens 9 operand) (span : Span) {level : Nat} (hlevel : level ≤ 9) :
    Reads (operator.token :: tokens) level (.unary span operator operand) := by
  intro assignable statements opened _ _ place
  have hstep : Progress.step ⟨statements, opened, awaits assignable⟩ operator.token place =
      some ⟨statements, .unary place.start operator :: opened, awaits false⟩ := by
    rw [step_begins (by cases operator <;> rfl)]
    cases operator <;> rfl
  refine ⟨_, hstep, ?_⟩
  have hstops : Stops 9 (.unary place.start operator :: opened) := fun _ _ _ => by omega
  exact (h false statements _ (by omega) hstops).mono
    (Behind.outward fun _ _ hpending => hpending.unary hlevel)

theorem reads_identifier (name : String) (span : Span) (level : Nat) :
    Reads [.name name] level (.identifier span name) := by
  intro assignable statements opened _ _ place
  rw [step_begins rfl]
  exact ⟨_, rfl, behind_operand rfl⟩

theorem reads_array {items : List Expression} (h : ∀ e ∈ items, Reads (e.tokens quote) 0 e)
    (span : Span) (level : Nat) :
    Reads (.opening .square :: (tokensOfItems quote items ++ [.closing .square])) level
      (.array span items) := by
  intro assignable statements opened _ _ place
  rw [step_begins rfl]
  refine ⟨_, rfl, (reaches_items (.array place.start) h []).mono ?_⟩
  rintro _ ⟨read, last, hbare, rfl⟩
  refine behind_operand ?_
  show Expression.array default (bareAll read) = _
  rw [hbare]
  rfl

theorem reads_object (hquote : IsQuote quote) {entries : List (String × Expression)}
    (h : ∀ entry ∈ entries, Reads (entry.2.tokens quote) 0 entry.2) (span : Span) (level : Nat) :
    Reads (.opening .curly :: (tokensOfEntries quote entries ++ [.closing .curly])) level
      (.object span entries) := by
  intro assignable statements opened _ _ place
  rw [step_begins rfl]
  refine ⟨_, rfl, (reaches_entries hquote h place.start []).mono ?_⟩
  rintro _ ⟨read, last, hbare, rfl⟩
  refine behind_operand ?_
  show Expression.object default (bareEntries read) = _
  rw [hbare]
  rfl

theorem reads_member {object : Expression} {tokens : List Token} (h : Reads tokens 10 object)
    (property : String) (span : Span) (level : Nat) :
    Reads (tokens ++ [.symbol .dot, .name property]) level (.member span object property) := by
  refine h.followed fun statements opened x _ hx dot => ?_
  refine ⟨⟨statements, opened, .property x⟩, rfl, fun place => ⟨_, rfl, behind_operand ?_⟩⟩
  show Expression.member default x.value.bare property = _
  rw [hx]
  rfl

theorem reads_index {object index : Expression} {tokens inner : List Token}
    (h : Reads tokens 10 object) (hindex : Reads inner 0 index) (span : Span) (level : Nat) :
    Reads (tokens ++ (.opening .square :: (inner ++ [.closing .square]))) level
      (.index span object index) := by
  refine h.followed fun statements opened x _ hx place => ?_
  refine ⟨⟨statements, .index x :: opened, awaits true⟩, rfl, ?_⟩
  refine (hindex.inside fun _ _ => rfl).append ?_
  rintro _ ⟨frames, y, a, rfl, hpending⟩ last
  obtain ⟨z, hz, hstep⟩ := step_ends (.closing .square) rfl hpending last
  refine ⟨_, hstep, behind_operand ?_⟩
  show Expression.index default x.value.bare z.value.bare = _
  rw [hx, hz]
  rfl

theorem reads_call {callee : Expression} {tokens : List Token} {arguments : List Expression}
    (h : Reads tokens 10 callee) (harguments : ∀ e ∈ arguments, Reads (e.tokens quote) 0 e)
    (span : Span) (level : Nat) :
    Reads (tokens ++ (.opening .round :: (tokensOfItems quote arguments ++ [.closing .round]))) level
      (.call span callee arguments) := by
  refine h.followed fun statements opened x _ hx place => ?_
  refine ⟨⟨statements, .call x [] :: opened, awaits true⟩, rfl, ?_⟩
  refine (reaches_items (.call x) harguments []).mono ?_
  rintro _ ⟨read, last, hbare, rfl⟩
  refine behind_operand ?_
  show Expression.call default x.value.bare (bareAll read) = _
  rw [hx, hbare]
  rfl

/-- The operator closes the frames of its left operand and leaves what stands before it open. -/
theorem reads_binary {operator : BinaryOperator} {left right : Expression} {first second : List Token}
    (hleft : Reads first operator.level left) (hright : Reads second (operator.level + 1) right)
    (span : Span) {level : Nat} (hlevel : level ≤ operator.level) :
    Reads (first ++ (.symbol operator.symbol :: second)) level (.binary span operator left right) := by
  intro assignable statements opened _ hopened
  -- every operator binds tighter than a conditional, so its left operand leaves operators only
  have hge := operator.level_ge
  refine (hleft assignable statements opened (by omega) (hopened.mono hlevel)).append ?_
  rintro _ ⟨frames, x, a, rfl, hpending⟩ place
  obtain ⟨y, hclose, hy⟩ := hpending.closeOperators (by omega) (Nat.le_refl _) opened
  rw [hopened _ hlevel operator.level_le] at hclose
  have hstep : Progress.step ⟨statements, frames ++ opened, .continuation x a⟩
      (.symbol operator.symbol) place = some ⟨statements, .binary y operator :: opened, awaits false⟩ := by
    have htoken : BinaryOperator.ofToken? (.symbol operator.symbol) = some operator := by
      cases operator <;> rfl
    show Progress.atContinuation _ x a _ place = _
    simp only [Progress.atContinuation, htoken, hclose]
    rfl
  refine ⟨_, hstep, ?_⟩
  -- an operator of the same level would close this one, so the right operand must bind tighter
  have hstops : Stops (operator.level + 1) (.binary y operator :: opened) := by
    intro upTo hupTo _ z
    rw [closeOperators, if_neg (by omega)]
  exact (hright false statements _ (by omega) hstops).mono
    (Behind.outward fun _ _ hpending => .binary hy hpending hlevel)

theorem reads_conditional {condition consequent alternative : Expression}
    {first second third : List Token} (hcondition : Reads first 3 condition)
    (hconsequent : Reads second 0 consequent) (halternative : Reads third 0 alternative)
    (span : Span) :
    Reads (first ++ (.symbol .question :: (second ++ (.symbol .colon :: third)))) 0
      (.conditional span condition consequent alternative) := by
  intro assignable statements opened hassignable hopened
  refine (hcondition assignable statements opened (by omega) (hopened.mono (by omega))).append ?_
  rintro _ ⟨frames, x, a, rfl, hpending⟩ place
  -- the question mark closes every operator of the condition, and the colon the whole consequent
  obtain ⟨y, hclose, hy⟩ := hpending.closeOperators (by omega) (Nat.zero_le _) opened
  rw [hopened 0 (Nat.le_refl 0) (by omega)] at hclose
  have hstep : Progress.step ⟨statements, frames ++ opened, .continuation x a⟩
      (.symbol .question) place = some ⟨statements, .consequent y :: opened, awaits true⟩ := by
    show Progress.atContinuation _ x a (.symbol .question) place = _
    simp only [Progress.atContinuation, BinaryOperator.ofToken?, hclose]
    rfl
  refine ⟨_, hstep, ?_⟩
  refine (hconsequent.inside fun _ _ => rfl).append ?_
  rintro _ ⟨frames, z, a, rfl, hpending⟩ colon
  obtain ⟨z, hz, hstep⟩ := step_ends (.symbol .colon) rfl hpending colon
  refine ⟨⟨statements, .alternative y z.value :: opened, awaits true⟩, hstep, ?_⟩
  exact (halternative.inside fun _ _ => rfl).mono
    (Behind.outward fun _ _ hpending => .alternative hy hz hpending)

theorem reads_assign {value : Expression} {tokens : List Token} (h : Reads tokens 0 value)
    (name : String) (span : Span) :
    Reads (.name name :: .symbol .assign :: tokens) 0 (.assign span name value) := by
  intro assignable statements opened hassignable _ place
  -- at level zero an expression is awaited, so a name that comes first may be assigned to
  obtain rfl := hassignable rfl
  rw [step_begins rfl]
  refine ⟨_, rfl, fun assign => ⟨⟨statements, .assign place.start name :: opened, awaits true⟩, rfl, ?_⟩⟩
  exact (h.inside fun _ _ => rfl).mono (Behind.outward fun _ _ hpending => hpending.assign)

mutual

/-- The tokens of an expression read as the expression in every place that demands no higher level. -/
theorem reads_tokens (hquote : IsQuote quote) :
    (e : Expression) → ∀ level ≤ e.level, Reads (e.tokens quote) level e
  | .literal span value, level, _ => reads_literal hquote value span level
  | .identifier span name, level, _ => reads_identifier name span level
  | .array span items, level, _ => reads_array (reads_items hquote items) span level
  | .object span entries, level, _ =>
    reads_object hquote (reads_entries hquote entries) span level
  | .member span object property, level, _ =>
    reads_member (.bracketed (reads_tokens hquote object) 10) property span level
  | .index span object index, level, _ =>
    reads_index (.bracketed (reads_tokens hquote object) 10)
      (reads_tokens hquote index 0 (Nat.zero_le _)) span level
  | .call span callee arguments, level, _ =>
    reads_call (.bracketed (reads_tokens hquote callee) 10) (reads_items hquote arguments) span level
  | .unary span operator operand, level, hlevel =>
    reads_unary (.bracketed (reads_tokens hquote operand) 9) span hlevel
  | .binary span operator left right, level, hlevel =>
    reads_binary (.bracketed (reads_tokens hquote left) operator.level)
      (.bracketed (reads_tokens hquote right) (operator.level + 1)) span hlevel
  | .conditional span condition consequent alternative, level, hlevel => by
    obtain rfl : level = 0 := Nat.le_zero.mp hlevel
    exact reads_conditional (.bracketed (reads_tokens hquote condition) 3)
      (reads_tokens hquote consequent 0 (Nat.zero_le _))
      (reads_tokens hquote alternative 0 (Nat.zero_le _)) span
  | .assign span name value, level, hlevel => by
    obtain rfl : level = 0 := Nat.le_zero.mp hlevel
    exact reads_assign (reads_tokens hquote value 0 (Nat.zero_le _)) name span

theorem reads_items (hquote : IsQuote quote) :
    (items : List Expression) → ∀ e ∈ items, Reads (e.tokens quote) 0 e
  | [], _, he => nomatch he
  | item :: items, e, he => by
    rcases List.mem_cons.mp he with h | he
    · rw [h]
      exact reads_tokens hquote item 0 (Nat.zero_le _)
    · exact reads_items hquote items e he

theorem reads_entries (hquote : IsQuote quote) : (entries : List (String × Expression)) →
    ∀ entry ∈ entries, Reads (entry.2.tokens quote) 0 entry.2
  | [], _, he => nomatch he
  | (key, value) :: entries, entry, he => by
    rcases List.mem_cons.mp he with h | he
    · rw [h]
      exact reads_tokens hquote value 0 (Nat.zero_le _)
    · exact reads_entries hquote entries entry he

end

end Expressions

end Stencil
