/-
Stencil/Proofs/Nesting.lean

The tree of a row of pieces.  `Derives (.block false) items` is the grammar of
balanced rows: blocks that are opened, split and closed by directives that fit,
with `foreachbreak` only inside of something that can be left.

Whether a row is accepted depends on the kinds of the open blocks only: `turn?`
says what a directive does to them, and `step_turn?` that nesting does the same.
An open block owes the rest of the row the directives that end it, which
`Completes kinds items` writes down; so the rows that are accepted are exactly the
balanced ones (`accepts_iff_derives`).
-/
import Stencil.Template

namespace Stencil

/-! ### Balanced rows -/

/-- A piece that belongs to the block at hand and opens none. -/
def Item.isPlain : Item → Bool
  | .text _ => true
  | .directive (.output ..) _ | .directive (.statements _) _ | .directive (.run ..) _ => true
  | .directive _ _ => false

/-- The parts of a balanced row. -/
inductive RowPart where
  /-- A block; `breakable` if something around it can be left. -/
  | block (breakable : Bool)
  /-- What follows the first branch of a conditional. -/
  | branches (breakable : Bool)
  /-- What follows the body of a loop. -/
  | loopEnd

/-- The rows of pieces that make up a part. -/
inductive Derives : RowPart → List Item → Prop
  | nil {breakable : Bool} : Derives (.block breakable) []
  | plain {breakable : Bool} {item : Item} {items : List Item} :
      item.isPlain = true → Derives (.block breakable) items →
      Derives (.block breakable) (item :: items)
  | leave {span : Span} {items : List Item} :
      Derives (.block true) items →
      Derives (.block true) (.directive .forEachBreak span :: items)
  | choose {breakable : Bool} {condition : Expression} {span : Span} {body tail items : List Item} :
      Derives (.block breakable) body → Derives (.branches breakable) tail →
      Derives (.block breakable) items →
      Derives (.block breakable) (.directive (.ifThen condition) span :: (body ++ (tail ++ items)))
  | forEach {breakable : Bool} {item : String} {collection : Expression} {span : Span}
      {body tail items : List Item} :
      Derives (.block true) body → Derives .loopEnd tail → Derives (.block breakable) items →
      Derives (.block breakable)
        (.directive (.forEach item collection) span :: (body ++ (tail ++ items)))
  | define {breakable : Bool} {name : String} {parameters : List String} {span last : Span}
      {body items : List Item} :
      Derives (.block true) body → Derives (.block breakable) items →
      Derives (.block breakable)
        (.directive (.define name parameters) span :: (body ++ ([.directive .endDefine last] ++ items)))
  | endIf {breakable : Bool} {span : Span} :
      Derives (.branches breakable) [.directive .endIf span]
  | elseIf {breakable : Bool} {condition : Expression} {span : Span} {body tail : List Item} :
      Derives (.block breakable) body → Derives (.branches breakable) tail →
      Derives (.branches breakable) (.directive (.elseIf condition) span :: (body ++ tail))
  | otherwise {breakable : Bool} {span last : Span} {body : List Item} :
      Derives (.block breakable) body →
      Derives (.branches breakable)
        (.directive .otherwise span :: (body ++ [.directive .endIf last]))
  | endForEach {span : Span} : Derives .loopEnd [.directive .endForEach span]
  | forEachElse {span last : Span} {body : List Item} :
      Derives (.block true) body →
      Derives .loopEnd (.directive .forEachElse span :: (body ++ [.directive .endForEach last]))

/-! ### The kinds of open blocks -/

/-- What an open block is, whatever it holds. -/
inductive OpenKind where
  | branch
  | otherwise
  | loop
  | loopElse
  | definition
deriving DecidableEq, Repr

/-- The kind of an open block. -/
def OpenBlock.kind : OpenBlock → OpenKind
  | .branch .. => .branch
  | .otherwise .. => .otherwise
  | .loop .. => .loop
  | .loopElse .. => .loopElse
  | .definition .. => .definition

/-- Whether a block of the kind can be left. -/
def OpenKind.breakable : OpenKind → Bool
  | .loop | .loopElse | .definition => true
  | .branch | .otherwise => false

theorem OpenBlock.breakable_kind (block : OpenBlock) : block.kind.breakable = block.breakable := by
  cases block <;> rfl

/-- Whether one of the open blocks can be left. -/
def anyBreakable (kinds : List OpenKind) : Bool := kinds.any OpenKind.breakable

/-- What a directive does to the kinds of the open blocks, innermost first, if it fits them. -/
def turn? : List OpenKind → Directive → Option (List OpenKind)
  | kinds, .output .. | kinds, .statements _ | kinds, .run .. => some kinds
  | kinds, .forEachBreak => if anyBreakable kinds then some kinds else none
  | kinds, .ifThen _ => some (.branch :: kinds)
  | kinds, .forEach .. => some (.loop :: kinds)
  | kinds, .define .. => some (.definition :: kinds)
  | .branch :: kinds, .elseIf _ => some (.branch :: kinds)
  | .branch :: kinds, .otherwise => some (.otherwise :: kinds)
  | .branch :: kinds, .endIf | .otherwise :: kinds, .endIf => some kinds
  | .loop :: kinds, .forEachElse => some (.loopElse :: kinds)
  | .loop :: kinds, .endForEach | .loopElse :: kinds, .endForEach => some kinds
  | .definition :: kinds, .endDefine => some kinds
  | _, _ => none

/-- The pieces fit the open blocks and leave none of them open. -/
def accepts : List OpenKind → List Item → Bool
  | kinds, [] => kinds.isEmpty
  | kinds, .text _ :: items => accepts kinds items
  | kinds, .directive directive _ :: items =>
    match turn? kinds directive with
    | some kinds => accepts kinds items
    | none => false

namespace Nesting

/-- The kinds of the open blocks, innermost first. -/
def kinds (n : Nesting) : List OpenKind := n.opened.map fun (_, block) => block.kind

theorem any_breakable (n : Nesting) :
    (n.opened.any fun (_, block) => block.breakable) = anyBreakable n.kinds := by
  simp only [kinds, anyBreakable, List.any_map]
  congr 1
  funext entry
  exact (OpenBlock.breakable_kind entry.2).symm

theorem kinds_addText (n : Nesting) (text : List Char) : (n.addText text).kinds = n.kinds := by
  unfold addText
  split <;> rfl

theorem kinds_foldl_add (statements : List Statement) (n : Nesting) :
    (statements.foldl (fun n s => n.add (.ofStatement s)) n).kinds = n.kinds := by
  induction statements generalizing n with
  | nil => rfl
  | cons s statements ih => exact ih (n.add (.ofStatement s))

/-- A step does to the kinds of the open blocks what the directive says, and fails where it does not
fit them. -/
theorem step_turn? (n : Nesting) (directive : Directive) (span : Span) (last : Bool) :
    ((n.step directive span last).toOption.map kinds) = turn? n.kinds directive := by
  cases directive with
  | output | run | ifThen | forEach | define => rfl
  | statements statements =>
    simp only [step, Except.toOption, Option.map_some, kinds_foldl_add, turn?]
  | forEachBreak =>
    rw [turn?, ← any_breakable]
    simp only [step]
    split <;> rfl
  -- these look at the innermost open block only
  | elseIf | otherwise | endIf | forEachElse | endForEach | endDefine =>
    obtain ⟨opened, nodes⟩ := n
    rcases opened with - | ⟨⟨before, block⟩, opened⟩
    · rfl
    · cases block <;> rfl

/-- Whether the pieces are accepted is settled by the kinds of the open blocks. -/
theorem readAll_isOk (n : Nesting) (items : List Item) :
    (n.readAll items).isOk = accepts n.kinds items := by
  induction items generalizing n with
  | nil =>
    obtain ⟨opened, nodes⟩ := n
    rcases opened with - | ⟨⟨before, block⟩, opened⟩ <;> rfl
  | cons item items ih =>
    cases item with
    | text text => rw [readAll, ih, kinds_addText, accepts]
    | directive directive span =>
      have hstep := n.step_turn? directive span (!items.any Item.endsDefinition)
      rw [readAll, accepts, ← hstep]
      rcases n.step directive span (!items.any Item.endsDefinition) with fault | next
      · rfl
      · exact ih next

end Nesting

/-! ### What open blocks owe -/

/-- What ends an open block, once the nodes at hand are complete; `breakable` if something around the
block can be left. -/
def OpenKind.Ends (breakable : Bool) : OpenKind → List Item → Prop
  | .branch, tail => Derives (.branches breakable) tail
  | .otherwise, tail => ∃ span, tail = [.directive .endIf span]
  | .loop, tail => Derives .loopEnd tail
  | .loopElse, tail => ∃ span, tail = [.directive .endForEach span]
  | .definition, tail => ∃ span, tail = [.directive .endDefine span]

/-- `Completes kinds items`: the items complete the block at hand and end the open blocks around it,
innermost first. -/
inductive Completes : List OpenKind → List Item → Prop
  | bottom {items : List Item} : Derives (.block false) items → Completes [] items
  | block {kind : OpenKind} {kinds : List OpenKind} {body tail items : List Item} :
      Derives (.block (anyBreakable (kind :: kinds))) body →
      kind.Ends (anyBreakable kinds) tail → Completes kinds items →
      Completes (kind :: kinds) (body ++ (tail ++ items))

variable {kinds : List OpenKind} {items : List Item}

/-- What may stand in front of the rest of a block may stand in front of what completes it. -/
theorem Completes.prepend (front : List Item) (h : Completes kinds items)
    (hfront : ∀ body, Derives (.block (anyBreakable kinds)) body →
      Derives (.block (anyBreakable kinds)) (front ++ body)) :
    Completes kinds (front ++ items) := by
  cases h with
  | bottom h => exact .bottom (hfront _ h)
  | block hbody hend hrest =>
    rw [← List.append_assoc]
    exact .block (hfront _ hbody) hend hrest

/-- The end of a block where the nodes at hand are complete. -/
theorem Completes.ended (kind : OpenKind) {tail : List Item} (h : Completes kinds items)
    (hend : kind.Ends (anyBreakable kinds) tail) :
    Completes (kind :: kinds) (tail ++ items) :=
  .block .nil hend h

/-- A directive that opens a block: the block is complete behind it and goes in front of the outer one. -/
theorem Completes.opening {kind : OpenKind} {front : Item} (h : Completes (kind :: kinds) items)
    (hfront : ∀ body tail rest, Derives (.block (anyBreakable (kind :: kinds))) body →
      kind.Ends (anyBreakable kinds) tail → Derives (.block (anyBreakable kinds)) rest →
      Derives (.block (anyBreakable kinds)) (front :: (body ++ (tail ++ rest)))) :
    Completes kinds (front :: items) := by
  cases h with
  | block hbody hend hrest =>
    rw [← List.append_assoc, ← List.cons_append]
    refine hrest.prepend _ fun rest hderives => ?_
    rw [List.cons_append, List.append_assoc]
    exact hfront _ _ rest hbody hend hderives

/-- A directive that goes on with another body: what ends this body ends the block before it. -/
theorem Completes.turning {kind next : OpenKind} {front : Item} (h : Completes (next :: kinds) items)
    (hfront : ∀ body tail, Derives (.block (anyBreakable (next :: kinds))) body →
      next.Ends (anyBreakable kinds) tail → kind.Ends (anyBreakable kinds) (front :: (body ++ tail))) :
    Completes (kind :: kinds) (front :: items) := by
  cases h with
  | block hbody hend hrest =>
    rw [← List.append_assoc]
    exact hrest.ended kind (hfront _ _ hbody hend)

/-- A directive in front of what completes the blocks behind it completes the blocks before it. -/
theorem Completes.of_turn? {next : List OpenKind} {directive : Directive} {span : Span}
    (h : Completes next items) (hturn : turn? kinds directive = some next) :
    Completes kinds (.directive directive span :: items) := by
  cases directive with
  | output | run | statements =>
    obtain rfl : kinds = next := Option.some.inj hturn
    exact h.prepend [_] fun body hbody => .plain rfl hbody
  | forEachBreak =>
    obtain ⟨hbreak, rfl⟩ : anyBreakable kinds = true ∧ kinds = next := by simpa [turn?] using hturn
    refine h.prepend [_] fun body hbody => ?_
    rw [hbreak] at hbody ⊢
    exact .leave hbody
  -- an opening directive completes a body, its end and the rest, which are cut out of what is behind it
  | ifThen condition =>
    obtain rfl : .branch :: kinds = next := Option.some.inj hturn
    exact h.opening fun body tail rest hbody hend hrest => .choose hbody hend hrest
  | forEach item collection =>
    obtain rfl : .loop :: kinds = next := Option.some.inj hturn
    exact h.opening fun body tail rest hbody hend hrest => .forEach hbody hend hrest
  | define name parameters =>
    obtain rfl : .definition :: kinds = next := Option.some.inj hturn
    refine h.opening fun body tail rest hbody hend hrest => ?_
    obtain ⟨last, rfl⟩ := hend
    exact .define hbody hrest
  -- the others fit only what the innermost block is, and fail where it is something else
  | elseIf condition =>
    rcases kinds with - | ⟨- | - | - | - | -, outer⟩ <;> cases hturn
    exact h.turning fun body tail hbody hend => .elseIf hbody hend
  | otherwise =>
    rcases kinds with - | ⟨- | - | - | - | -, outer⟩ <;> cases hturn
    refine h.turning fun body tail hbody hend => ?_
    obtain ⟨last, rfl⟩ := hend
    exact .otherwise hbody
  | forEachElse =>
    rcases kinds with - | ⟨- | - | - | - | -, outer⟩ <;> cases hturn
    refine h.turning fun body tail hbody hend => ?_
    obtain ⟨last, rfl⟩ := hend
    exact .forEachElse hbody
  -- an end completes an empty body, of the block with or without a last branch
  | endIf =>
    rcases kinds with - | ⟨- | - | - | - | -, outer⟩ <;> cases hturn
    · exact h.ended .branch .endIf
    · exact h.ended .otherwise ⟨span, rfl⟩
  | endForEach =>
    rcases kinds with - | ⟨- | - | - | - | -, outer⟩ <;> cases hturn
    · exact h.ended .loop .endForEach
    · exact h.ended .loopElse ⟨span, rfl⟩
  | endDefine =>
    rcases kinds with - | ⟨- | - | - | - | -, outer⟩ <;> cases hturn
    exact h.ended .definition ⟨span, rfl⟩

theorem completes_of_accepts (h : accepts kinds items = true) : Completes kinds items := by
  induction items generalizing kinds with
  | nil =>
    obtain rfl : kinds = [] := List.isEmpty_iff.mp h
    exact .bottom .nil
  | cons item items ih =>
    cases item with
    | text text => exact (ih h).prepend [_] fun body hbody => .plain rfl hbody
    | directive directive span =>
      rw [accepts] at h
      split at h
      · next next hturn => exact (ih h).of_turn? hturn
      · cases h

/-! ### Every derivation is read -/

/-- How a part of a row is read behind the opening of its block: whatever follows it finds the blocks
around it open. -/
def RowPart.Reads (part : RowPart) (items : List Item) : Prop :=
  ∀ kinds rest,
    match part with
    | .block breakable =>
      (breakable = true → anyBreakable kinds = true) → accepts kinds (items ++ rest) = accepts kinds rest
    | .branches breakable =>
      (breakable = true → anyBreakable kinds = true) →
        accepts (.branch :: kinds) (items ++ rest) = accepts kinds rest
    | .loopEnd => accepts (.loop :: kinds) (items ++ rest) = accepts kinds rest

theorem Derives.reads {part : RowPart} (h : Derives part items) : part.Reads items := by
  -- the parts of a block are read one behind the other, each with the kind of the block on top
  induction h with
  | nil => intro kinds rest _; rfl
  | @plain breakable item items hplain _ ih =>
    intro kinds rest hbreak
    rw [List.cons_append, ← ih kinds rest hbreak]
    rcases item with text | ⟨directive, span⟩
    · rfl
    · cases directive <;> first | rfl | cases hplain
  | @leave span items _ ih =>
    intro kinds rest hbreak
    rw [List.cons_append, accepts, turn?, if_pos (hbreak rfl)]
    exact ih kinds rest hbreak
  | choose _ _ _ ihBody ihTail ihRest =>
    intro kinds rest hbreak
    simp only [List.cons_append, List.append_assoc, accepts, turn?]
    rw [ihBody (.branch :: kinds) _ hbreak, ihTail kinds _ hbreak, ihRest kinds rest hbreak]
  | forEach _ _ _ ihBody ihTail ihRest =>
    intro kinds rest hbreak
    simp only [List.cons_append, List.append_assoc, accepts, turn?]
    -- in the body of a loop or a definition the nearest item may be left, whatever lies around it
    rw [ihBody (.loop :: kinds) _ fun _ => rfl, ihTail kinds, ihRest kinds rest hbreak]
  | define _ _ ihBody ihRest =>
    intro kinds rest hbreak
    simp only [List.cons_append, List.append_assoc, accepts, turn?]
    rw [ihBody (.definition :: kinds) _ fun _ => rfl]
    exact ihRest kinds rest hbreak
  | endIf => intro kinds rest _; rfl
  | elseIf _ _ ihBody ihTail =>
    intro kinds rest hbreak
    simp only [List.cons_append, List.append_assoc, accepts, turn?]
    rw [ihBody (.branch :: kinds) _ hbreak, ihTail kinds rest hbreak]
  -- behind `else` the block is of another kind, which only its end fits
  | otherwise _ ihBody =>
    intro kinds rest hbreak
    simp only [List.cons_append, List.append_assoc, accepts, turn?]
    rw [ihBody (.otherwise :: kinds) _ hbreak]
    rfl
  | endForEach => intro kinds rest; rfl
  | forEachElse _ ihBody =>
    intro kinds rest
    simp only [List.cons_append, List.append_assoc, accepts, turn?]
    rw [ihBody (.loopElse :: kinds) _ fun _ => rfl]
    rfl

/-- Exactly the balanced rows are accepted. -/
theorem accepts_iff_derives : accepts [] items = true ↔ Derives (.block false) items := by
  constructor
  · intro h
    cases completes_of_accepts h with
    | bottom h => exact h
  · intro h
    have hread := h.reads [] [] (by simp)
    rwa [List.append_nil] at hread

end Stencil
