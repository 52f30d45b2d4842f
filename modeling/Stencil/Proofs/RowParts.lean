/-
Stencil/Proofs/RowParts.lean

Rows of pieces, read part by part.  `Nesting.run` takes the pieces of a part and
leaves the blocks open that the part leaves open; it must be told whether a piece
behind the part closes a definition, since the guard for sub-templates belongs
behind the last such piece.

* `readAll_append` — a row is read by running its first part and reading the rest;
* `lists_run` — a run lists its part behind what is listed;
* `Derives.keepsOpened` — a balanced part leaves the open blocks around it as
  they are.
-/
import Stencil.Proofs.Listing

namespace Stencil

/-- One of the pieces closes a definition. -/
def endsDefinition (items : List Item) : Bool := items.any Item.endsDefinition

@[simp] theorem endsDefinition_nil : endsDefinition [] = false := rfl

@[simp] theorem endsDefinition_cons (item : Item) (items : List Item) :
    endsDefinition (item :: items) = (item.endsDefinition || endsDefinition items) := by
  simp [endsDefinition]

@[simp] theorem endsDefinition_append (items rest : List Item) :
    endsDefinition (items ++ rest) = (endsDefinition items || endsDefinition rest) := by
  simp [endsDefinition]

namespace Nesting

/-- Takes the pieces in order; `later` if a piece behind them closes a definition. -/
def run (later : Bool) : Nesting → List Item → Except CompileFault Nesting
  | n, [] => .ok n
  | n, .text text :: rest => run later (n.addText text) rest
  | n, .directive directive span :: rest => do
    let next ← n.step directive span (!(endsDefinition rest || later))
    run later next rest

theorem readAll_append (n : Nesting) (items rest : List Item) :
    n.readAll (items ++ rest) =
      n.run (endsDefinition rest) items >>= fun next => next.readAll rest := by
  induction items generalizing n with
  | nil => rfl
  | cons item items ih =>
    cases item with
    | text text => exact ih (n.addText text)
    | directive directive span =>
      rw [List.cons_append, readAll, run, ← endsDefinition, endsDefinition_append]
      rcases n.step directive span !(endsDefinition items || endsDefinition rest) with fault | next
      · rfl
      · exact ih next

theorem run_append (later : Bool) (n : Nesting) (items rest : List Item) :
    n.run later (items ++ rest) =
      n.run (endsDefinition rest || later) items >>= fun next => next.run later rest := by
  induction items generalizing n with
  | nil => rfl
  | cons item items ih =>
    cases item with
    | text text => exact ih (n.addText text)
    | directive directive span =>
      rw [List.cons_append, run, run, endsDefinition_append, Bool.or_assoc]
      rcases n.step directive span !(endsDefinition items || (endsDefinition rest || later))
        with fault | next
      · rfl
      · exact ih next

/-- A run of a directive and some pieces is a step and a run of the pieces. -/
theorem run_directive {later : Bool} {n last : Nesting} {directive : Directive} {span : Span}
    {rest : List Item} (h : n.run later (.directive directive span :: rest) = .ok last) :
    ∃ next, n.step directive span (!(endsDefinition rest || later)) = .ok next ∧
      next.run later rest = .ok last := by
  rw [run] at h
  rcases hstep : n.step directive span !(endsDefinition rest || later) with fault | next
  · rw [hstep] at h
    cases h
  · rw [hstep] at h
    exact ⟨next, rfl, h⟩

/-- A run of two parts is a run of the first and a run of the second. -/
theorem run_parts {later : Bool} {n last : Nesting} {items rest : List Item}
    (h : n.run later (items ++ rest) = .ok last) :
    ∃ middle, n.run (endsDefinition rest || later) items = .ok middle ∧
      middle.run later rest = .ok last := by
  rw [run_append] at h
  rcases hrun : n.run (endsDefinition rest || later) items with fault | middle
  · rw [hrun] at h
    cases h
  · rw [hrun] at h
    exact ⟨middle, rfl, h⟩

/-- A run lists its part behind what is listed. -/
theorem lists_run {later : Bool} {n last : Nesting} {items : List Item} (hn : Seated n.nodes)
    (h : n.run later items = .ok last) : Lists n last (items.flatMap Item.marks) := by
  induction items generalizing n with
  | nil =>
    obtain rfl : n = last := Except.ok.inj h
    exact ⟨rfl, hn⟩
  | cons item items ih =>
    rw [List.flatMap_cons]
    cases item with
    | text text =>
      have hstep := lists_addText hn text
      have hrest := ih hstep.seated h
      exact ⟨by rw [List.foldl_append, hrest.marks_eq, hstep.marks_eq]; rfl, hrest.seated⟩
    | directive directive span =>
      obtain ⟨next, hnext, hlast⟩ := run_directive h
      have hstep := lists_step hn hnext
      have hrest := ih hstep.seated hlast
      exact ⟨by rw [List.foldl_append, hrest.marks_eq, hstep.marks_eq]; rfl, hrest.seated⟩

/-- What a run from the beginning of a row lists. -/
theorem marks_run {later : Bool} {last : Nesting} {items : List Item}
    (h : start.run later items = .ok last) :
    Seated last.nodes ∧ last.marks = condense (items.flatMap Item.marks) := by
  have hlists := lists_run (n := start) trivial h
  refine ⟨hlists.seated, ?_⟩
  rw [condense, ← List.reverse_inj, List.reverse_reverse, hlists.marks_eq]
  rfl

@[simp] theorem opened_addText (n : Nesting) (text : List Char) :
    (n.addText text).opened = n.opened := by
  fun_cases addText n text <;> rfl

@[simp] theorem opened_foldl_add (statements : List Statement) (n : Nesting) :
    (statements.foldl (fun n s => n.add (.ofStatement s)) n).opened = n.opened := by
  induction statements generalizing n with
  | nil => rfl
  | cons s statements ih => exact ih (n.add (.ofStatement s))

end Nesting

/-- How a part of a row leaves the open blocks: a block leaves them as they are, and what ends a block
takes that one away. -/
def RowPart.KeepsOpened (part : RowPart) (items : List Item) : Prop :=
  ∀ later n last, Nesting.run later n items = .ok last →
    match part with
    | .block _ => last.opened = n.opened
    | .branches _ => ∀ before span branches condition opened,
        n.opened = (before, .branch span branches condition) :: opened → last.opened = opened
    | .loopEnd => ∀ before span item collection opened,
        n.opened = (before, .loop span item collection) :: opened → last.opened = opened

theorem Derives.keepsOpened {part : RowPart} {items : List Item} (h : Derives part items) :
    part.KeepsOpened items := by
  -- every directive steps, and the parts behind it run one after the other
  induction h with
  | nil =>
    intro later n last hrun
    obtain rfl : n = last := Except.ok.inj hrun
    rfl
  -- a piece that opens no block adds to the nodes only
  | @plain breakable item items hplain _ ih =>
    intro later n last hrun
    rcases item with text | ⟨directive, span⟩
    · exact (ih later _ last hrun).trans (Nesting.opened_addText n text)
    · obtain ⟨next, hnext, hlast⟩ := Nesting.run_directive hrun
      refine (ih later next last hlast).trans ?_
      cases directive with
      | output | run =>
        cases hnext
        rfl
      | statements list =>
        cases hnext
        exact Nesting.opened_foldl_add list n
      | _ => cases hplain
  | leave _ ih =>
    intro later n last hrun
    obtain ⟨next, hnext, hlast⟩ := Nesting.run_directive hrun
    refine (ih later next last hlast).trans ?_
    simp only [Nesting.step] at hnext
    split at hnext <;> cases hnext
    rfl
  -- a block: its directive opens it, its body leaves it open, what is behind its body takes it away,
  -- and the rest of the row finds what was open before
  | choose _ _ _ ihBody ihTail ihRest =>
    intro later n last hrun
    obtain ⟨next, hnext, hrun⟩ := Nesting.run_directive hrun
    obtain ⟨inside, hbody, hrun⟩ := Nesting.run_parts hrun
    obtain ⟨behind, htail, hrest⟩ := Nesting.run_parts hrun
    cases hnext
    have hinside := ihBody _ _ inside hbody
    have hbehind := ihTail _ _ behind htail _ _ _ _ _ hinside
    exact (ihRest later behind last hrest).trans hbehind
  | forEach _ _ _ ihBody ihTail ihRest =>
    intro later n last hrun
    obtain ⟨next, hnext, hrun⟩ := Nesting.run_directive hrun
    obtain ⟨inside, hbody, hrun⟩ := Nesting.run_parts hrun
    obtain ⟨behind, htail, hrest⟩ := Nesting.run_parts hrun
    cases hnext
    have hinside := ihBody _ _ inside hbody
    have hbehind := ihTail _ _ behind htail _ _ _ _ _ hinside
    exact (ihRest later behind last hrest).trans hbehind
  -- a definition has no branches, so its end alone takes it away
  | define _ _ ihBody ihRest =>
    intro later n last hrun
    obtain ⟨next, hnext, hrun⟩ := Nesting.run_directive hrun
    obtain ⟨⟨opened, nodes⟩, hbody, hrun⟩ := Nesting.run_parts hrun
    obtain ⟨behind, hend, hrest⟩ := Nesting.run_directive hrun
    cases hnext
    obtain rfl : opened = _ := ihBody _ _ _ hbody
    cases hend
    have hlast := ihRest later _ last hrest
    exact hlast
  -- from here on a part begins inside of a block: the innermost one is given, and the directive ends it
  -- or changes what it holds
  | endIf =>
    intro later n last hrun before span branches condition opened hopened
    obtain ⟨next, hnext, hlast⟩ := Nesting.run_directive hrun
    obtain ⟨_, nodes⟩ := n
    obtain rfl := hopened
    cases hnext
    cases hlast
    rfl
  | elseIf _ _ ihBody ihTail =>
    intro later n last hrun before span branches condition opened hopened
    obtain ⟨next, hnext, hrun⟩ := Nesting.run_directive hrun
    obtain ⟨inside, hbody, htail⟩ := Nesting.run_parts hrun
    obtain ⟨_, nodes⟩ := n
    obtain rfl := hopened
    cases hnext
    exact ihTail later inside last htail _ _ _ _ _ (ihBody _ _ inside hbody)
  -- behind `else` nothing but the end of the block may come, so it is read here
  | otherwise _ ihBody =>
    intro later n last hrun before span branches condition opened hopened
    obtain ⟨next, hnext, hrun⟩ := Nesting.run_directive hrun
    obtain ⟨⟨inside, nodes⟩, hbody, hrun⟩ := Nesting.run_parts hrun
    obtain ⟨behind, hend, hlast⟩ := Nesting.run_directive hrun
    obtain ⟨_, held⟩ := n
    obtain rfl := hopened
    cases hnext
    obtain rfl : inside = _ := ihBody _ _ _ hbody
    cases hend
    cases hlast
    rfl
  -- the same for loops
  | endForEach =>
    intro later n last hrun before span item collection opened hopened
    obtain ⟨next, hnext, hlast⟩ := Nesting.run_directive hrun
    obtain ⟨_, nodes⟩ := n
    obtain rfl := hopened
    cases hnext
    cases hlast
    rfl
  | forEachElse _ ihBody =>
    intro later n last hrun before span item collection opened hopened
    obtain ⟨next, hnext, hrun⟩ := Nesting.run_directive hrun
    obtain ⟨⟨inside, nodes⟩, hbody, hrun⟩ := Nesting.run_parts hrun
    obtain ⟨behind, hend, hlast⟩ := Nesting.run_directive hrun
    obtain ⟨_, held⟩ := n
    obtain rfl := hopened
    cases hnext
    obtain rfl : inside = _ := ihBody _ _ _ hbody
    cases hend
    cases hlast
    rfl

end Stencil
