/-
Stencil/Proofs/ExpressionPlaces.lean

Where expressions stand.  All that is read from tokens in order lies between the first
of them and the last: what has been read keeps the starts of its open constructs, none
of which lies behind the last token, and an operand that waits for what follows it ends
with that token (`Progress.Placed`).  A token keeps this up (`placed_step`), so every
expression that is read lies within the source with all of its parts, and its
identifiers are written where they stand (`Expression.Placed`).

The main results, `readStatements_placed` and its companions for expressions and
argument lists, hold of all code that is anchored in a source, and say the same of the
faults.
-/
import Stencil.Expression.Read
import Stencil.Proofs.Parts
import Stencil.Proofs.TokenPlaces

namespace Stencil

open Text

/-! ### Expressions in their places -/

/-- What an expression is put together of. -/
def Expression.children : Expression → List Expression
  | .literal .. | .identifier .. => []
  | .array _ items => items
  | .object _ entries => entries.map Prod.snd
  | .member _ owner _ => [owner]
  | .index _ owner key => [owner, key]
  | .call _ callee arguments => callee :: arguments
  | .unary _ _ operand => [operand]
  | .binary _ _ left right => [left, right]
  | .conditional _ condition first second => [condition, first, second]
  | .assign _ _ value => [value]

theorem partsOfAll_eq (es : List Expression) : partsOfAll es = es.flatMap Expression.parts := by
  induction es with
  | nil => rfl
  | cons e es ih => rw [partsOfAll, ih, List.flatMap_cons]

theorem partsOfEntries_eq (entries : List (String × Expression)) :
    partsOfEntries entries = (entries.map Prod.snd).flatMap Expression.parts := by
  induction entries with
  | nil => rfl
  | cons entry entries ih =>
    obtain ⟨key, e⟩ := entry
    rw [partsOfEntries, ih, List.map_cons, List.flatMap_cons]

theorem Expression.parts_eq (e : Expression) : e.parts = e :: e.children.flatMap Expression.parts := by
  cases e <;> simp [Expression.parts, children, partsOfAll_eq, partsOfEntries_eq]

/-- All parts of an expression lie within the source, and its identifiers are written where they
stand. -/
structure Expression.Placed (source : List Char) (e : Expression) : Prop where
  within : ∀ part ∈ e.parts, Within source part.span
  spells : ∀ span name, .identifier span name ∈ e.parts → Spells source span name.toList

section Expressions

variable {source : List Char}

theorem Expression.Placed.of_children {e : Expression} (hspan : Within source e.span)
    (hname : ∀ span name, e = .identifier span name → Spells source span name.toList)
    (hchildren : ∀ child ∈ e.children, child.Placed source) : e.Placed source where
  within part hpart := by
    rw [e.parts_eq, List.mem_cons] at hpart
    rcases hpart with rfl | hpart
    · exact hspan
    · obtain ⟨child, hchild, hpart⟩ := List.mem_flatMap.mp hpart
      exact (hchildren child hchild).within part hpart
  spells span name hpart := by
    rw [e.parts_eq, List.mem_cons] at hpart
    rcases hpart with he | hpart
    · exact hname span name he.symm
    · obtain ⟨child, hchild, hpart⟩ := List.mem_flatMap.mp hpart
      exact (hchildren child hchild).spells span name hpart

theorem Expression.Placed.child {e child : Expression} (h : e.Placed source)
    (hchild : child ∈ e.children) : child.Placed source where
  within part hpart := h.within part (by
    rw [e.parts_eq]
    exact List.mem_cons_of_mem _ (List.mem_flatMap.mpr ⟨child, hchild, hpart⟩))
  spells span name hpart := h.spells span name (by
    rw [e.parts_eq]
    exact List.mem_cons_of_mem _ (List.mem_flatMap.mpr ⟨child, hchild, hpart⟩))

/-- The expressions of a statement are in their places. -/
def Statement.Placed (source : List Char) (s : Statement) : Prop :=
  ∀ e ∈ s.mark.expressions, e.Placed source

theorem Statement.Placed.evaluate {e : Expression} (h : e.Placed source) :
    (Statement.evaluate e).Placed source := List.forall_mem_singleton.mpr h

theorem Statement.Placed.declare {e : Expression} (h : e.Placed source) (name : String) :
    (Statement.declare name (some e)).Placed source := List.forall_mem_singleton.mpr h

theorem Statement.Placed.bare (source : List Char) (name : String) :
    (Statement.declare name none).Placed source := nofun

end Expressions

/-! ### Operands and open constructs -/

/-- The start of an open construct, where it has one. -/
def OpenConstruct.start? : OpenConstruct → Option Nat
  | .unary start _ | .group start | .array start _ | .object start _ _ | .assign start _ => some start
  | .binary operand _ | .index operand | .call operand _ | .consequent operand
  | .alternative operand _ => some operand.extent.start
  | .declare _ => none

/-- The expressions that an open construct holds. -/
def OpenConstruct.held : OpenConstruct → List Expression
  | .unary .. | .group _ | .assign .. | .declare _ => []
  | .array _ items => items
  | .object _ entries _ => entries.map Prod.snd
  | .binary operand _ | .index operand | .consequent operand => [operand.value]
  | .call callee arguments => callee.value :: arguments
  | .alternative condition first => [condition.value, first]

/-- A construct began before `limit`, and what it holds is in its place. -/
structure OpenConstruct.Placed (source : List Char) (limit : Nat) (c : OpenConstruct) : Prop where
  start : ∀ offset ∈ c.start?, Boundary source offset ∧ offset ≤ limit
  held : ∀ e ∈ c.held, e.Placed source

/-- An operand in its place ends at `limit`. -/
structure Operand.Ends (source : List Char) (limit : Nat) (x : Operand) : Prop where
  value : x.value.Placed source
  extent : Within source x.extent
  stop_eq : x.extent.stop = limit

section Operands

variable {source : List Char} {limit start : Nat} {x : Operand} {span : Span}
  {build : Span → Expression} {opened : List OpenConstruct}

theorem OpenConstruct.Placed.mono {c : OpenConstruct} {later : Nat} (h : c.Placed source limit)
    (hle : limit ≤ later) : c.Placed source later :=
  ⟨fun offset hoffset => ⟨(h.start offset hoffset).1, (h.start offset hoffset).2.trans hle⟩, h.held⟩

theorem Operand.Ends.start_le (h : x.Ends source limit) : x.extent.start ≤ limit :=
  h.extent.ordered.trans_eq h.stop_eq

/-- A construct that holds an operand begins where that does. -/
theorem Operand.Ends.holding {c : OpenConstruct} (h : x.Ends source limit)
    (hstart : c.start? = some x.extent.start) (hheld : c.held = [x.value]) : c.Placed source limit := by
  refine ⟨fun offset hoffset => ?_, ?_⟩
  · obtain rfl : x.extent.start = offset := Option.some.inj (hstart.symm.trans hoffset)
    exact ⟨h.extent.start, h.start_le⟩
  · rw [hheld]
    exact List.forall_mem_singleton.mpr h.value

/-- An operand with something in front of it. -/
theorem Operand.Ends.over (h : x.Ends source limit) (hstart : Boundary source start ∧ start ≤ limit)
    (hbuild : ∀ span, Within source span → (build span).Placed source) :
    (x.over start build).Ends source limit := by
  have hspan : Within source ⟨start, x.extent.stop⟩ :=
    ⟨hstart.1, h.extent.stop, h.stop_eq ▸ hstart.2⟩
  exact ⟨hbuild _ hspan, hspan, h.stop_eq⟩

/-- A construct that ends with a token. -/
theorem Operand.ends_upTo (hspan : Within source span)
    (hstart : Boundary source start ∧ start ≤ span.start)
    (hbuild : ∀ span, Within source span → (build span).Placed source) :
    (Operand.upTo start span build).Ends source span.stop := by
  have hall : Within source ⟨start, span.stop⟩ :=
    ⟨hstart.1, hspan.stop, hstart.2.trans hspan.ordered⟩
  exact ⟨hbuild _ hall, hall, rfl⟩

/-- Closing operators leaves all that is open, and the operand, in place. -/
theorem placed_closeOperators (level : Nat) (hopened : ∀ c ∈ opened, c.Placed source limit)
    (hx : x.Ends source limit) :
    (∀ c ∈ (closeOperators level opened x).1, c.Placed source limit) ∧
      (closeOperators level opened x).2.Ends source limit := by
  fun_induction closeOperators level opened x with
  | case1 start operator opened x ih =>
    obtain ⟨hc, hopened⟩ := List.forall_mem_cons.mp hopened
    refine ih hopened (hx.over (hc.start start rfl) fun span hspan => ?_)
    exact .of_children hspan nofun (by simpa [Expression.children] using hx.value)
  | case2 left operator opened x hlevel ih =>
    obtain ⟨hc, hopened⟩ := List.forall_mem_cons.mp hopened
    refine ih hopened (hx.over (hc.start _ rfl) fun span hspan => ?_)
    refine .of_children hspan nofun (List.forall_mem_cons.mpr ⟨hc.held _ List.mem_cons_self, ?_⟩)
    simpa using hx.value
  | case3 => exact ⟨hopened, hx⟩
  | case4 => exact ⟨hopened, hx⟩

theorem placed_closeAll (hopened : ∀ c ∈ opened, c.Placed source limit)
    (hx : x.Ends source limit) :
    (∀ c ∈ (closeAll opened x).1, c.Placed source limit) ∧
      (closeAll opened x).2.Ends source limit := by
  fun_induction closeAll opened x with
  | case1 start operator opened x ih =>
    obtain ⟨hc, hopened⟩ := List.forall_mem_cons.mp hopened
    refine ih hopened (hx.over (hc.start start rfl) fun span hspan => ?_)
    exact .of_children hspan nofun (by simpa [Expression.children] using hx.value)
  | case2 left operator opened x ih =>
    obtain ⟨hc, hopened⟩ := List.forall_mem_cons.mp hopened
    refine ih hopened (hx.over (hc.start _ rfl) fun span hspan => ?_)
    refine .of_children hspan nofun (List.forall_mem_cons.mpr ⟨hc.held _ List.mem_cons_self, ?_⟩)
    simpa using hx.value
  | case3 condition consequent opened x ih =>
    obtain ⟨hc, hopened⟩ := List.forall_mem_cons.mp hopened
    refine ih hopened (hx.over (hc.start _ rfl) fun span hspan => .of_children hspan nofun ?_)
    obtain ⟨hcondition, hconsequent⟩ := List.forall_mem_cons.mp hc.held
    refine List.forall_mem_cons.mpr ⟨hcondition, List.forall_mem_cons.mpr ⟨?_, ?_⟩⟩
    · exact hconsequent _ List.mem_cons_self
    · simpa using hx.value
  | case4 start name opened x ih =>
    obtain ⟨hc, hopened⟩ := List.forall_mem_cons.mp hopened
    refine ih hopened (hx.over (hc.start start rfl) fun span hspan => ?_)
    exact .of_children hspan nofun (by simpa [Expression.children] using hx.value)
  | case5 => exact ⟨hopened, hx⟩

end Operands

/-! ### What has been read -/

/-- What is awaited holds only what is in its place; an operand that waits ends at `limit`. -/
def Awaited.Placed (source : List Char) (limit : Nat) : Awaited → Prop
  | .expression | .operand | .declarator | .declared _ => True
  | .continuation x _ => x.Ends source limit
  | .property x =>
    (Boundary source x.extent.start ∧ x.extent.start ≤ limit) ∧ x.value.Placed source
  | .key start entries | .colon start entries _ =>
    (Boundary source start ∧ start ≤ limit) ∧ ∀ e ∈ entries.map Prod.snd, e.Placed source

/-- What has been read up to `limit` is in its place. -/
structure Progress.Placed (source : List Char) (limit : Nat) (p : Progress) : Prop where
  statements : ∀ s ∈ p.statements, s.Placed source
  opened : ∀ c ∈ p.opened, c.Placed source limit
  awaited : p.awaited.Placed source limit

namespace Progress.Placed

variable {source : List Char} {limit : Nat} {p next : Progress} {x : Operand} {t : Token}
  {span : Span} {opened : List OpenConstruct}

theorem start (source : List Char) (limit : Nat) : Progress.start.Placed source limit :=
  ⟨nofun, nofun, trivial⟩

/-- What is open stays in place while more is read. -/
theorem later (h : p.Placed source limit) (hle : limit ≤ span.start) (ht : t.Placed source span) :
    ∀ c ∈ p.opened, c.Placed source span.stop :=
  fun c hc => (h.opened c hc).mono (hle.trans ht.within.ordered)

theorem behind (h : p.Placed source limit) (hopened : ∀ c ∈ opened, c.Placed source span.stop)
    (hx : x.Ends source span.stop) : (p.behind opened x).Placed source span.stop :=
  ⟨h.statements, hopened, hx⟩

theorem push {c : OpenConstruct} (h : p.Placed source limit)
    (hopened : ∀ c ∈ p.opened, c.Placed source span.stop) (hc : c.Placed source span.stop) :
    (p.push c).Placed source span.stop :=
  ⟨h.statements, List.forall_mem_cons.mpr ⟨hc, hopened⟩, trivial⟩

theorem finish {s : Statement} (h : p.Placed source limit) (hs : s.Placed source) (limit : Nat) :
    (p.finish s).Placed source limit :=
  ⟨List.forall_mem_cons.mpr ⟨hs, h.statements⟩, nofun, trivial⟩

/-- A token by itself is in its place. -/
theorem begins (ht : t.Placed source span) : Boundary source span.start ∧ span.start ≤ span.stop :=
  ⟨ht.within.start, ht.within.ordered⟩

theorem beginOperand {assignable : Bool} (h : p.Placed source limit) (hle : limit ≤ span.start)
    (ht : t.Placed source span) (hstep : p.beginOperand assignable t span = some next) :
    next.Placed source span.stop := by
  have hopened := h.later hle ht
  rw [Progress.beginOperand.eq_def] at hstep
  split at hstep
  · cases hstep
    exact h.behind hopened ⟨.of_children ht.within nofun nofun, ht.within, rfl⟩
  · cases hstep
    refine ⟨h.statements, List.forall_mem_cons.mpr ⟨⟨?_, nofun⟩, hopened⟩, trivial⟩
    rintro offset ⟨⟩
    exact begins ht
  · cases hstep
    refine ⟨h.statements, hopened, ⟨.of_children ht.within ?_ nofun, ht.within, rfl⟩⟩
    rintro _ _ ⟨⟩
    exact ht.spells _ rfl
  · cases hstep
    refine h.push hopened ⟨?_, nofun⟩
    rintro offset ⟨⟩
    exact begins ht
  · cases hstep
    refine h.push hopened ⟨?_, nofun⟩
    rintro offset ⟨⟩
    exact begins ht
  · cases hstep
    exact ⟨h.statements, hopened, begins ht, nofun⟩
  · cases hstep

/-- A token ends the innermost construct. -/
theorem ends {c : OpenConstruct} {start : Nat} {build : Span → Expression} (h : p.Placed source limit)
    (hopened : ∀ other ∈ c :: opened, other.Placed source limit) (hstart : c.start? = some start)
    (hle : limit ≤ span.start) (ht : t.Placed source span)
    (hbuild : (∀ e ∈ c.held, e.Placed source) → ∀ span, Within source span →
      (build span).Placed source) :
    (p.behind opened (.upTo start span build)).Placed source span.stop := by
  obtain ⟨hc, hopened⟩ := List.forall_mem_cons.mp hopened
  obtain ⟨hboundary, hlimit⟩ := hc.start start hstart
  exact h.behind (fun c hc => (hopened c hc).mono (hle.trans ht.within.ordered))
    (Operand.ends_upTo ht.within ⟨hboundary, hlimit.trans hle⟩ (hbuild hc.held))

/-- The innermost construct goes on as another one that began where it did. -/
theorem goesOn {c other : OpenConstruct} (h : p.Placed source limit)
    (hopened : ∀ other ∈ c :: opened, other.Placed source limit) (hstart : other.start? = c.start?)
    (hle : limit ≤ span.start) (ht : t.Placed source span)
    (hheld : (∀ e ∈ c.held, e.Placed source) → ∀ e ∈ other.held, e.Placed source) :
    Placed source span.stop { p with opened := other :: opened, awaited := .expression } := by
  have hlater := hle.trans ht.within.ordered
  obtain ⟨hc, hopened⟩ := List.forall_mem_cons.mp hopened
  have hother : other.Placed source limit := ⟨hstart ▸ hc.start, hheld hc.held⟩
  exact ⟨h.statements, List.forall_mem_cons.mpr ⟨hother.mono hlater, fun c hc =>
    (hopened c hc).mono hlater⟩, trivial⟩

theorem atExpression (h : p.Placed source limit) (hawaited : p.awaited = .expression)
    (hle : limit ≤ span.start) (ht : t.Placed source span)
    (hstep : p.atExpression t span = some next) : next.Placed source span.stop := by
  have hopened := h.later hle ht
  rw [Progress.atExpression.eq_def] at hstep
  split at hstep
  · cases hstep
    exact ⟨h.statements, hopened, by rw [hawaited]; trivial⟩
  · cases hstep
    exact ⟨h.statements, hopened, trivial⟩
  · next hp =>
    cases hstep
    refine h.ends (hp ▸ h.opened) rfl hle ht fun hheld span hspan => .of_children hspan nofun ?_
    simpa [Expression.children, OpenConstruct.held] using hheld
  · next hp =>
    cases hstep
    refine h.ends (hp ▸ h.opened) rfl hle ht fun hheld span hspan => .of_children hspan nofun ?_
    simpa [Expression.children, OpenConstruct.held] using hheld
  · exact h.beginOperand hle ht hstep

theorem atClosing (h : p.Placed source limit) (hx : x.Ends source limit) (hle : limit ≤ span.start)
    (ht : t.Placed source span) (hstep : p.atClosing x t span = some next) :
    next.Placed source span.stop := by
  obtain ⟨hopened, hwhole⟩ := placed_closeAll h.opened hx
  rw [Progress.atClosing.eq_def] at hstep
  generalize closeAll p.opened x = closed at hstep hopened hwhole
  obtain ⟨opened, whole⟩ := closed
  have hvalue := hwhole.value
  simp only at hstep hopened hvalue
  -- the cases are those of the innermost construct and the token that ends it or goes on with it
  split at hstep
  -- what was read is a statement by itself, or the value of a declaration
  case h_1 =>
    cases hstep
    exact h.finish (.evaluate hvalue) _
  case h_2 =>
    cases hstep
    exact h.finish (.declare hvalue _) _
  case h_3 =>
    cases hstep
    exact ⟨(h.finish (.declare hvalue _) limit).statements, nofun, trivial⟩
  -- an operand in brackets extends from bracket to bracket, around its value
  case h_4 =>
    cases hstep
    obtain ⟨hc, hopened⟩ := List.forall_mem_cons.mp hopened
    obtain ⟨hstart, hlimit⟩ := hc.start _ rfl
    have hlater := hle.trans ht.within.ordered
    exact h.behind (fun c hc => (hopened c hc).mono hlater)
      ⟨hvalue, ⟨hstart, ht.within.stop, hlimit.trans hlater⟩, rfl⟩
  -- a comma goes on with the construct, which holds one value more
  case h_5 =>
    cases hstep
    exact h.goesOn hopened rfl hle ht fun hheld => List.forall_mem_cons.mpr ⟨hvalue, hheld⟩
  -- a bracket ends it: its children are what it held, and the value that was read last
  case h_6 =>
    cases hstep
    refine h.ends hopened rfl hle ht fun hheld span hspan => .of_children hspan nofun ?_
    rw [Expression.children, List.reverse_cons, List.forall_mem_append]
    exact ⟨fun e he => hheld e (List.mem_reverse.mp he), List.forall_mem_singleton.mpr hvalue⟩
  -- behind an entry a key comes, which an object waits for with the entries it holds
  case h_7 =>
    cases hstep
    obtain ⟨hc, hopened⟩ := List.forall_mem_cons.mp hopened
    obtain ⟨hstart, hlimit⟩ := hc.start _ rfl
    have hlater := hle.trans ht.within.ordered
    exact ⟨h.statements, fun c hc => (hopened c hc).mono hlater, ⟨hstart, hlimit.trans hlater⟩,
      List.forall_mem_cons.mpr ⟨hvalue, hc.held⟩⟩
  case h_8 =>
    cases hstep
    refine h.ends hopened rfl hle ht fun hheld span hspan => .of_children hspan nofun ?_
    rw [Expression.children, List.reverse_cons, List.map_append, List.map_reverse,
      List.forall_mem_append]
    exact ⟨fun e he => hheld e (List.mem_reverse.mp he), List.forall_mem_singleton.mpr hvalue⟩
  case h_9 =>
    cases hstep
    refine h.ends hopened rfl hle ht fun hheld span hspan => .of_children hspan nofun ?_
    exact List.forall_mem_cons.mpr ⟨hheld _ List.mem_cons_self, List.forall_mem_singleton.mpr hvalue⟩
  case h_10 =>
    cases hstep
    refine h.goesOn hopened rfl hle ht fun hheld => ?_
    obtain ⟨hcallee, harguments⟩ := List.forall_mem_cons.mp hheld
    exact List.forall_mem_cons.mpr ⟨hcallee, List.forall_mem_cons.mpr ⟨hvalue, harguments⟩⟩
  case h_11 =>
    cases hstep
    refine h.ends hopened rfl hle ht fun hheld span hspan => .of_children hspan nofun ?_
    obtain ⟨hcallee, harguments⟩ := List.forall_mem_cons.mp hheld
    rw [Expression.children, List.forall_mem_cons, List.reverse_cons, List.forall_mem_append]
    exact ⟨hcallee, fun e he => harguments e (List.mem_reverse.mp he),
      List.forall_mem_singleton.mpr hvalue⟩
  -- of a conditional the condition is held, and behind the colon the consequent too
  case h_12 =>
    cases hstep
    refine h.goesOn hopened rfl hle ht fun hheld => ?_
    exact List.forall_mem_cons.mpr ⟨hheld _ List.mem_cons_self, List.forall_mem_singleton.mpr hvalue⟩
  case h_13 => cases hstep

theorem atContinuation {assignable : Bool} (h : p.Placed source limit) (hx : x.Ends source limit)
    (hle : limit ≤ span.start) (ht : t.Placed source span)
    (hstep : p.atContinuation x assignable t span = some next) : next.Placed source span.stop := by
  have hlater := hle.trans ht.within.ordered
  have hopened := h.later hle ht
  rw [Progress.atContinuation.eq_def] at hstep
  split at hstep
  -- what the operator closes ends where the limit is, and it holds this as its left side
  case h_1 operator _ =>
    cases hstep
    obtain ⟨hrest, hleft⟩ := placed_closeOperators operator.level h.opened hx
    exact ⟨h.statements, List.forall_mem_cons.mpr ⟨(hleft.holding rfl rfl).mono hlater,
      fun c hc => (hrest c hc).mono hlater⟩, trivial⟩
  -- the operand itself is held, with all that it extends over
  case h_2 =>
    cases hstep
    exact ⟨h.statements, hopened, ⟨hx.extent.start, hx.start_le.trans hlater⟩, hx.value⟩
  case h_3 =>
    cases hstep
    exact h.push hopened ((hx.holding rfl rfl).mono hlater)
  case h_4 =>
    cases hstep
    exact h.push hopened ((hx.holding rfl rfl).mono hlater)
  case h_5 =>
    cases hstep
    obtain ⟨hrest, hcondition⟩ := placed_closeOperators 0 h.opened hx
    exact ⟨h.statements, List.forall_mem_cons.mpr ⟨(hcondition.holding rfl rfl).mono hlater,
      fun c hc => (hrest c hc).mono hlater⟩, trivial⟩
  -- of a name that is assigned to only the place is held
  case h_6 =>
    cases hstep
    refine h.push hopened ⟨?_, nofun⟩
    rintro offset ⟨⟩
    exact ⟨hx.extent.start, hx.start_le.trans hlater⟩
  case h_7 => exact h.atClosing hx hle ht hstep

/-- A token keeps what has been read in its place. -/
theorem step (h : p.Placed source limit) (hle : limit ≤ span.start) (ht : t.Placed source span)
    (hstep : p.step t span = some next) : next.Placed source span.stop := by
  have hlater := hle.trans ht.within.ordered
  have hopened := h.later hle ht
  have hawaited := h.awaited
  rw [Progress.step.eq_def] at hstep
  split at hstep
  -- where an operand is awaited nothing is held besides the open constructs
  case h_1 hp => exact h.atExpression hp hle ht hstep
  case h_2 => exact h.beginOperand hle ht hstep
  case h_3 operand assignable hp =>
    rw [hp] at hawaited
    exact h.atContinuation hawaited hle ht hstep
  -- elsewhere what is awaited holds an operand, entries or nothing, which the token completes
  case h_4 object hp =>
    rw [hp] at hawaited
    obtain ⟨⟨hstart, hlimit⟩, hvalue⟩ := hawaited
    split at hstep
    · cases hstep
      refine h.behind hopened (Operand.ends_upTo ht.within ⟨hstart, hlimit.trans hle⟩
        fun span hspan => .of_children hspan nofun ?_)
      exact List.forall_mem_singleton.mpr hvalue
    · cases hstep
  case h_5 start entries hp =>
    rw [hp] at hawaited
    obtain ⟨⟨hstart, hlimit⟩, hentries⟩ := hawaited
    split at hstep
    · cases hstep
      refine h.behind hopened (Operand.ends_upTo ht.within ⟨hstart, hlimit.trans hle⟩
        fun span hspan => .of_children hspan nofun ?_)
      rw [Expression.children, List.map_reverse]
      exact fun e he => hentries e (List.mem_reverse.mp he)
    · obtain ⟨key, -, rfl⟩ := Option.map_eq_some_iff.mp hstep
      exact ⟨h.statements, hopened, ⟨hstart, hlimit.trans hlater⟩, hentries⟩
  case h_6 start entries key hp =>
    rw [hp] at hawaited
    obtain ⟨⟨hstart, hlimit⟩, hentries⟩ := hawaited
    split at hstep
    · cases hstep
      refine h.push hopened ⟨?_, hentries⟩
      rintro offset ⟨⟩
      exact ⟨hstart, hlimit.trans hlater⟩
    · cases hstep
  -- a declaration holds no expression before its sign
  case h_7 =>
    split at hstep <;> cases hstep
    exact ⟨h.statements, hopened, trivial⟩
  case h_8 name hp =>
    have hbare := Statement.Placed.bare source name
    split at hstep
    · cases hstep
      exact h.push hopened ⟨nofun, nofun⟩
    · cases hstep
      exact ⟨(h.finish hbare limit).statements, nofun, trivial⟩
    · cases hstep
      exact h.finish hbare _
    · cases hstep

/-- What can end here is in its place. -/
theorem done? {statements : List Statement} (h : p.Placed source limit)
    (hdone : p.done? = some statements) : ∀ s ∈ statements, s.Placed source := by
  have hawaited := h.awaited
  rw [Progress.done?.eq_def] at hdone
  split at hdone
  case h_1 =>
    cases hdone
    exact fun s hs => h.statements s (List.mem_reverse.mp hs)
  case h_2 name _ _ =>
    cases hdone
    exact fun s hs => (h.finish (.bare source name) limit).statements s (List.mem_reverse.mp hs)
  case h_3 x _ hp =>
    rw [hp] at hawaited
    have hvalue := (placed_closeAll h.opened hawaited).2.value
    split at hdone
    · next whole hclose =>
      cases hdone
      rw [hclose] at hvalue
      exact fun s hs => (h.finish (.evaluate hvalue) limit).statements s (List.mem_reverse.mp hs)
    · next name whole hclose =>
      cases hdone
      rw [hclose] at hvalue
      exact fun s hs => (h.finish (.declare hvalue name) limit).statements s (List.mem_reverse.mp hs)
    · cases hdone
  case h_4 => cases hdone

/-- A run over tokens that are in order ends with statements that are in their places, or with a fault
that is. -/
theorem readAll {tokens : List (Token × Span)} {stop : Span} (h : p.Placed source limit)
    (htokens : InOrder source limit tokens) (hstop : Within source stop) :
    (∀ statements, Progress.readAll stop p tokens = .ok statements →
        ∀ s ∈ statements, s.Placed source) ∧
      ∀ span, Progress.readAll stop p tokens = .error span → Within source span := by
  induction htokens generalizing p with
  | nil =>
    rw [Progress.readAll]
    split
    · next statements hdone =>
      refine ⟨?_, nofun⟩
      rintro _ ⟨⟩
      exact h.done? hdone
    · refine ⟨nofun, ?_⟩
      rintro _ ⟨⟩
      exact hstop
  | cons hle ht _ ih =>
    rw [Progress.readAll]
    split
    · next hstep => exact ih (h.step hle ht hstep)
    · refine ⟨nofun, ?_⟩
      rintro _ ⟨⟩
      exact ht.within

end Progress.Placed

/-! ### Code in its place -/

/-- A fault of compiling that lies within the source. -/
def CompileFault.Placed (source : List Char) : CompileFault → Prop
  | .emptyDelimiter => False
  | .malformed _ span => Within source span

/-- Reading a part of the source gives something of which `p` holds, or a fault that lies within the
source. -/
def InPlace {α : Type} (source : List Char) (p : α → Prop) : Except CompileFault α → Prop
  | .ok a => p a
  | .error fault => fault.Placed source

section Code

variable {source : List Char} {code : Slice} {α β : Type}

theorem InPlace.bind {p : α → Prop} {q : β → Prop} {r : Except CompileFault α}
    {f : α → Except CompileFault β} (h : InPlace source p r)
    (hf : ∀ a, p a → InPlace source q (f a)) : InPlace source q (r >>= f) := by
  cases r with
  | ok a => exact hf a h
  | error fault => exact h

theorem readStatements_inPlace (hcode : code.Anchored source) :
    InPlace source (fun statements => ∀ s ∈ statements, s.Placed source) (readStatements code) := by
  rw [readStatements]
  rcases hscan : Token.scan code with span | tokens
  · exact scan_fault hcode hscan
  · obtain ⟨hok, herror⟩ := (Progress.Placed.start source code.start).readAll
      (scan_inOrder hcode hscan) hcode.stop.within_at
    simp only [bind, Except.bind]
    rcases hread : Progress.start.readAll (.at code.stop) tokens with span | statements
    · exact herror span hread
    · exact hok statements hread

theorem readExpression_inPlace (hcode : code.Anchored source) :
    InPlace source (Expression.Placed source) (readExpression code) := by
  rw [readExpression]
  refine (readStatements_inPlace hcode).bind fun statements hstatements => ?_
  split
  · exact hstatements _ List.mem_cons_self _ List.mem_cons_self
  · exact hcode.within
  · exact hcode.within

/-- An argument list between brackets in the source. -/
structure Slice.Bracketed (source : List Char) (inner : Slice) : Prop where
  start_pos : 0 < inner.start
  anchored : inner.Anchored source
  whole : Slice.Anchored source ⟨inner.start - 1, '(' :: (inner.chars ++ [')'])⟩

theorem readArguments_inPlace {inner : Slice} (h : inner.Bracketed source) :
    InPlace source (fun es => ∀ e ∈ es, e.Placed source) (readArguments inner) := by
  rw [readArguments]
  split
  · exact nofun
  · refine (readExpression_inPlace h.whole.square).bind fun whole hwhole => ?_
    split
    · exact fun e he => hwhole.child he
    · exact h.anchored.within

end Code

end Stencil
