/-
Stencil/Proofs/NormalForm.lean

The form of compiled trees.  `Level nodes above row`: the row is `nodes`, or stands below
it inside of the nodes `above`.  At every level no text is empty and none stands beside
another, and a `leave` has a loop or a definition above it.

`Tidy` says this of a tree from the top, with a flag for whether the tree may be left, and
does not depend on the order of a row.  So it may be said of the rows that are held while
directives are nested, last node first (`Nesting.Tidy`), and every step keeps it
(`Nesting.Tidy.step`).

What the form is good for is that nothing cuts off the rest of a template.  A row that is
left holds a `leave` outside of all loops and definitions, so it has one of them above it,
and behind that the next node comes.  The main result is `compile_normal`.
-/
import Stencil.Proofs.Agreement
import Stencil.Proofs.Compiling
import Stencil.Proofs.Endings

namespace Stencil

/-! ### Levels -/

/-- What is rendered where the condition of the branch holds. -/
def Branch.body : Branch → List Node
  | .mk _ body => body

@[simp] theorem Branch.body_mk (condition : Expression) (body : List Node) :
    (Branch.mk condition body).body = body := rfl

/-- The rows of nodes that stand in a node. -/
def Node.rows : Node → List (List Node)
  | .choose branches otherwise => otherwise :: branches.map Branch.body
  | .forEach _ _ body otherwise => [body, otherwise]
  | .define _ _ body => [body]
  | _ => []

/-- A loop or a definition, which a `leave` below it does not leave. -/
def Node.absorbs : Node → Bool
  | .forEach .. | .define .. => true
  | _ => false

/-- The node is neither text nor a `leave`. -/
def Node.isPlain : Node → Bool
  | .text _ | .leave => false
  | _ => true

theorem Node.ne_text_of_isPlain {node : Node} (h : node.isPlain = true) (s : String) : node ≠ .text s := by
  rintro rfl
  cases h

theorem Node.ne_leave_of_isPlain {node : Node} (h : node.isPlain = true) : node ≠ .leave := by
  rintro rfl
  cases h

/-- The row is that of the nodes, or stands in one of them, however deep; `above` are the nodes around it,
innermost first. -/
inductive Level (nodes : List Node) : (above row : List Node) → Prop
  | top : Level nodes [] nodes
  | inside {above row inner : List Node} {node : Node} :
      Level nodes above row → node ∈ row → inner ∈ node.rows → Level nodes (node :: above) inner

/-! ### Tidy trees -/

/-- Text that says something, with no text beside it. -/
structure TidyText (row : List Node) : Prop where
  filled : .text "" ∉ row
  merged : ∀ before after, ¬[.text before, .text after] <:+: row

/-- At every level text is tidy, and nothing is left but loops and definitions, and the whole if
`leavable`. -/
inductive Tidy : (leavable : Bool) → (row : List Node) → Prop
  | intro {leavable : Bool} {row : List Node} : TidyText row → (.leave ∈ row → leavable = true) →
      (∀ node ∈ row, ∀ inner ∈ node.rows, Tidy (leavable || node.absorbs) inner) → Tidy leavable row

namespace Tidy

variable {leavable : Bool} {row nodes : List Node} {node : Node}

theorem text (h : Tidy leavable row) : TidyText row := by
  cases h with
  | intro htext _ _ => exact htext

theorem leave (h : Tidy leavable row) : .leave ∈ row → leavable = true := by
  cases h with
  | intro _ hleave _ => exact hleave

theorem inner (h : Tidy leavable row) :
    ∀ node ∈ row, ∀ inner ∈ node.rows, Tidy (leavable || node.absorbs) inner := by
  cases h with
  | intro _ _ hinner => exact hinner

theorem nil (leavable : Bool) : Tidy leavable [] :=
  .intro ⟨nofun, fun _ _ h => by simp at h⟩ nofun nofun

/-- A node that is no text may be put in front. -/
theorem cons (h : Tidy leavable row) (hplain : ∀ s, node ≠ .text s)
    (hleave : node = .leave → leavable = true)
    (hinner : ∀ inner ∈ node.rows, Tidy (leavable || node.absorbs) inner) :
    Tidy leavable (node :: row) := by
  refine .intro ⟨?_, fun before after hinfix => ?_⟩ ?_ (List.forall_mem_cons.mpr ⟨hinner, h.inner⟩)
  · rw [List.mem_cons, not_or]
    exact ⟨(hplain "").symm, h.text.filled⟩
  · rcases List.infix_cons_iff.mp hinfix with hprefix | hinfix
    · exact hplain before (List.cons_prefix_cons.mp hprefix).1.symm
    · exact h.text.merged before after hinfix
  · rw [List.mem_cons]
    rintro (hnode | hmem)
    · exact hleave hnode.symm
    · exact h.leave hmem

/-- Text may be put in front of what does not begin with text. -/
theorem cons_text (h : Tidy leavable row) {s : String} (hs : s ≠ "") (hrow : ∀ s rest, row ≠ .text s :: rest) :
    Tidy leavable (.text s :: row) := by
  refine .intro ⟨?_, fun before after hinfix => ?_⟩ ?_ (List.forall_mem_cons.mpr ⟨nofun, h.inner⟩)
  · rw [List.mem_cons, not_or]
    refine ⟨fun heq => ?_, h.text.filled⟩
    cases heq
    exact hs rfl
  · rcases List.infix_cons_iff.mp hinfix with hprefix | hinfix
    · obtain ⟨rest, hrest⟩ := (List.cons_prefix_cons.mp hprefix).2
      exact hrow after rest hrest.symm
    · exact h.text.merged before after hinfix
  · rw [List.mem_cons]
    rintro (hnode | hmem)
    · cases hnode
    · exact h.leave hmem

theorem tail (h : Tidy leavable (node :: row)) : Tidy leavable row := by
  refine .intro ⟨fun hmem => ?_, fun before after hinfix => ?_⟩ (fun hmem => ?_) fun node hmem => ?_
  · exact h.text.filled (List.mem_cons_of_mem _ hmem)
  · exact h.text.merged before after (List.infix_cons hinfix)
  · exact h.leave (List.mem_cons_of_mem _ hmem)
  · exact h.inner node (List.mem_cons_of_mem _ hmem)

theorem reverse (h : Tidy leavable row) : Tidy leavable row.reverse := by
  refine .intro ⟨?_, fun before after => ?_⟩ ?_ ?_
  · simpa using h.text.filled
  · have hmerged := h.text.merged after before
    rwa [← List.reverse_infix] at hmerged
  · simpa using h.leave
  · simpa using h.inner

/-- At every level the tree below a level of a tidy tree is tidy, and may be left if something above it
absorbs that. -/
theorem level {above : List Node} (h : Tidy leavable nodes) (hrow : Level nodes above row) :
    Tidy (leavable || above.any Node.absorbs) row := by
  induction hrow with
  | top => rwa [List.any_nil, Bool.or_false]
  | inside _ hnode hinner ih =>
    have hbelow := ih.inner _ hnode _ hinner
    rwa [Bool.or_assoc, Bool.or_comm (List.any _ _), ← List.any_cons] at hbelow

end Tidy

/-! ### Nesting keeps trees tidy -/

/-- Whether something that is open may be left. -/
def leavable (opened : List (List Node × OpenBlock)) : Bool := opened.any fun (_, block) => block.breakable

/-- The rows that an open block holds. -/
def OpenBlock.rows : OpenBlock → List (List Node)
  | .branch _ branches _ | .otherwise _ branches => branches.map Branch.body
  | .loopElse _ _ _ body => [body]
  | .loop .. | .definition .. => []

/-- What open blocks hold, and what stands before them, is tidy. -/
inductive HeldTidy : List (List Node × OpenBlock) → Prop
  | nil : HeldTidy []
  | cons {before : List Node} {block : OpenBlock} {opened : List (List Node × OpenBlock)} :
      Tidy (leavable opened) before →
      (∀ row ∈ block.rows, Tidy (block.breakable || leavable opened) row) → HeldTidy opened →
      HeldTidy ((before, block) :: opened)

namespace Nesting

/-- What has been nested so far is tidy. -/
structure Tidy (n : Nesting) : Prop where
  nodes : Stencil.Tidy (leavable n.opened) n.nodes
  held : HeldTidy n.opened

variable {n next : Nesting} {node : Node}

theorem tidy_start : start.Tidy := ⟨.nil _, .nil⟩

/-- A plain node with no rows in it may be added. -/
theorem Tidy.add (h : n.Tidy) (hplain : node.isPlain = true) (hrows : node.rows = []) :
    (n.add node).Tidy := by
  refine ⟨h.nodes.cons (node.ne_text_of_isPlain hplain) ?_ ?_, h.held⟩
  · exact fun hleave => absurd hleave (node.ne_leave_of_isPlain hplain)
  · rw [hrows]
    exact List.forall_mem_nil _

theorem Tidy.addText (h : n.Tidy) (text : List Char) : (n.addText text).Tidy := by
  fun_cases Nesting.addText n text
  · exact h
  · next before rest hnodes hne =>
    -- the text goes on with the one before it, beside which there is no other
    have hrow := h.nodes
    rw [hnodes] at hrow
    have hfilled : before ++ String.ofList text ≠ "" := fun hempty =>
      hne (by simpa using (String.append_eq_empty_iff.mp hempty).2)
    refine ⟨hrow.tail.cons_text hfilled ?_, h.held⟩
    rintro after others rfl
    exact hrow.text.merged before after (List.prefix_append _ others).isInfix
  · next hplain hne =>
    exact ⟨h.nodes.cons_text (fun hempty => hne (by simpa using hempty)) hplain, h.held⟩

theorem Tidy.statements (h : n.Tidy) (statements : List Statement) :
    (statements.foldl (fun n s => n.add (.ofStatement s)) n).Tidy := by
  induction statements generalizing n with
  | nil => exact h
  | cons s statements ih =>
    refine ih (h.add ?_ ?_) <;> cases s <;> rfl

/-- What stands before an open block and what it holds is tidy, and so is what stands in it. -/
theorem Tidy.openBlock (h : n.Tidy) {block : OpenBlock} (hrows : block.rows = []) :
    (n.openBlock block).Tidy :=
  ⟨.nil _, .cons h.nodes (by simp [hrows]) h.held⟩

section Blocks

variable {before nodes : List Node} {block block' : OpenBlock} {opened : List (List Node × OpenBlock)}

/-- A block that goes on with another row holds the one at hand. -/
theorem Tidy.turnBlock (h : Tidy ⟨(before, block) :: opened, nodes⟩)
    (hbreakable : block'.breakable = block.breakable)
    (hrows : ∀ row ∈ block'.rows, row = nodes.reverse ∨ row ∈ block.rows) :
    Tidy ⟨(before, block') :: opened, []⟩ := by
  obtain ⟨hnodes, hheld⟩ := h
  cases hheld with
  | cons hbefore hblock hheld =>
    refine ⟨.nil _, .cons hbefore (fun row hrow => ?_) hheld⟩
    rw [hbreakable]
    rcases hrows row hrow with rfl | hrow
    · exact hnodes.reverse
    · exact hblock row hrow

/-- A block that is closed becomes a node behind what stands before it. -/
theorem Tidy.closeBlock (h : Tidy ⟨(before, block) :: opened, nodes⟩) (hplain : node.isPlain = true)
    (habsorbs : node.absorbs = block.breakable)
    (hrows : ∀ row ∈ node.rows, row = [] ∨ row = nodes.reverse ∨ row ∈ block.rows) :
    Tidy ⟨opened, node :: before⟩ := by
  obtain ⟨hnodes, hheld⟩ := h
  cases hheld with
  | cons hbefore hblock hheld =>
    refine ⟨hbefore.cons (node.ne_text_of_isPlain hplain) ?_ fun row hrow => ?_, hheld⟩
    · exact fun hleave => absurd hleave (node.ne_leave_of_isPlain hplain)
    rw [habsorbs, Bool.or_comm]
    rcases hrows row hrow with rfl | rfl | hrow
    · exact .nil _
    · exact hnodes.reverse
    · exact hblock row hrow

end Blocks

/-- Every step keeps what is nested tidy. -/
theorem Tidy.step (h : n.Tidy) {directive : Directive} {span : Span} {last : Bool}
    (hstep : n.step directive span last = .ok next) : next.Tidy := by
  cases directive with
  | output form value =>
    cases hstep
    exact h.add rfl rfl
  | run name arguments =>
    cases hstep
    exact h.add rfl rfl
  | statements statements =>
    cases hstep
    exact h.statements statements
  | forEachBreak =>
    simp only [Nesting.step] at hstep
    split at hstep
    · -- the step is refused where nothing may be left, so here the nodes end with a leave in its place
      next hleavable =>
      cases hstep
      refine ⟨h.nodes.cons ?_ (fun _ => hleavable) (List.forall_mem_nil _), h.held⟩
      rintro _ ⟨⟩
    · cases hstep
  | ifThen condition =>
    cases hstep
    exact h.openBlock rfl
  | forEach item collection =>
    cases hstep
    exact h.openBlock rfl
  | define name parameters =>
    cases hstep
    exact h.openBlock rfl
  -- these look at the innermost open block only
  | elseIf | otherwise | forEachElse =>
    obtain ⟨opened, nodes⟩ := n
    rcases opened with - | ⟨⟨before, block⟩, opened⟩
    · cases hstep
    · cases block <;> cases hstep
      exact h.turnBlock rfl (by simp [OpenBlock.rows])
  | endIf | endForEach =>
    obtain ⟨opened, nodes⟩ := n
    rcases opened with - | ⟨⟨before, block⟩, opened⟩
    · cases hstep
    · -- what the block holds becomes a row of the node that it is put into
      cases block <;> cases hstep
      all_goals exact h.closeBlock rfl rfl (by grind [OpenBlock.rows, Node.rows, Branch.body_mk])
  | endDefine =>
    obtain ⟨opened, nodes⟩ := n
    rcases opened with - | ⟨⟨before, block⟩, opened⟩
    · cases hstep
    · cases block <;> cases hstep
      rename_i opener name parameters
      -- the guard is added behind a definition that is tidy already
      have hdefined : Tidy ⟨opened, .define name parameters nodes.reverse :: before⟩ :=
        h.closeBlock rfl rfl (by simp [Node.rows])
      dsimp only
      split
      · exact hdefined.add rfl rfl
      · exact hdefined

theorem Tidy.readAll (h : n.Tidy) {items : List Item} {nodes : List Node}
    (hread : n.readAll items = .ok nodes) : Stencil.Tidy false nodes := by
  induction items generalizing n with
  | nil =>
    obtain ⟨opened, held⟩ := n
    cases opened with
    | nil =>
      cases hread
      exact h.nodes.reverse
    | cons => cases hread
  | cons item items ih =>
    cases item with
    | text text => exact ih (h.addText text) hread
    | directive directive span =>
      rw [Nesting.readAll] at hread
      rcases hstep : n.step directive span (!items.any Item.endsDefinition) with fault | next
      · rw [hstep] at hread
        cases hread
      · rw [hstep] at hread
        exact ih (h.step hstep) hread

end Nesting

/-- Trees are tidy, and nothing in them leaves the whole. -/
theorem tidy_of_nest {items : List Item} {nodes : List Node} (h : nest items = .ok nodes) :
    Tidy false nodes :=
  Nesting.tidy_start.readAll h

/-! ### Rows that are left -/

mutual

/-- A node that may not be left holds no `leave` outside of all loops and definitions. -/
theorem leaves_eq_false : (node : Node) → node ≠ .leave →
    (∀ inner ∈ node.rows, Tidy (false || node.absorbs) inner) → node.leaves = false
  | .choose branches otherwise, _, hinner => by
    obtain ⟨hotherwise, hbranches⟩ := List.forall_mem_cons.mp hinner
    rw [Node.leaves, leavesInBranches_eq_false branches fun row hrow => hbranches row hrow,
      leavesIn_eq_false otherwise hotherwise, Bool.or_false]
  | .leave, hleave, _ => absurd rfl hleave
  | .text _, _, _ | .output .., _, _ | .declare .., _, _ | .evaluate _, _, _ | .forEach .., _, _
  | .define .., _, _ | .run .., _, _ | .dispatch, _, _ => rfl

theorem leavesIn_eq_false : (row : List Node) → Tidy false row → leavesIn row = false
  | [], _ => rfl
  | node :: row, h => by
    have hnode : node ≠ .leave := fun heq => nomatch h.leave (heq ▸ List.mem_cons_self)
    rw [leavesIn, leaves_eq_false node hnode (h.inner node List.mem_cons_self),
      leavesIn_eq_false row h.tail, Bool.or_false]

theorem leavesInBranches_eq_false : (branches : List Branch) →
    (∀ row ∈ branches.map Branch.body, Tidy false row) → leavesInBranches branches = false
  | [], _ => rfl
  | .mk _ body :: branches, h => by
    obtain ⟨hbody, hbranches⟩ := List.forall_mem_cons.mp h
    rw [leavesInBranches, leavesIn_eq_false body hbody, leavesInBranches_eq_false branches hbranches,
      Bool.or_false]

end

/-! ### Templates -/

/-- What is to be said of a row below the nodes `above`: its text is tidy, and if there is a `leave` in it,
or if rendering it ends with one, then something above it absorbs that. -/
structure NormalRow (above row : List Node) : Prop where
  text : TidyText row
  leave : .leave ∈ row → ∃ node ∈ above, node.absorbs = true
  left : ∀ settings run page rest, renderNodes settings run row page = .ok .leave rest →
    ∃ node ∈ above, node.absorbs = true

theorem Tidy.normalRow {above row : List Node} (h : Tidy (above.any Node.absorbs) row) :
    NormalRow above row where
  text := h.text
  leave hmem := List.any_eq_true.mp (h.leave hmem)
  left settings run page rest hrender := by
    by_contra habove
    have hnone : above.any Node.absorbs = false := by
      rw [← Bool.not_eq_true, List.any_eq_true]
      exact habove
    rw [hnone] at h
    exact ne_leave_renderNodes (leavesIn_eq_false row h) page .leave rest hrender rfl

/-- The tree of the template is in normal form at every level.  No render of the template is left by a
`leave`; and however what stands in a loop, in its last branch or in a sub-template ends, the nodes behind
the loop or the run come next. -/
structure Template.NormalForm (t : Template) : Prop where
  rows : ∀ above row, Level t.nodes above row → NormalRow above row
  unleft : ∀ host context key rest, renderNodes (t.settings host context key)
    (runSubtemplate (t.settings host context key) maxDepth) t.nodes (startPage context key) ≠
      .ok .leave rest
  confined : ∀ above row node, Level t.nodes above row → node ∈ row → node.confines = true →
    ∀ settings run behind page,
      renderNodes settings run (node :: behind) page =
        match renderNode settings run node page with
        | .ok _ left => renderNodes settings run behind left
        | .error fault left => .error fault left

/-- **Compiled trees are in normal form.**  At every level no text is empty and none stands beside another,
and a `leave` has a loop or a definition above it, which is all that it cuts off. -/
theorem compile_normal {source : String} {c : Configuration} {t : Template}
    (h : Template.compile source c = .ok t) : t.NormalForm := by
  obtain ⟨d, pieces, items, hstages⟩ := Template.stages h
  have hrows : ∀ above row, Level t.nodes above row → NormalRow above row := fun above row hrow => by
    have htidy := (tidy_of_nest hstages.nested).level hrow
    rw [Bool.false_or] at htidy
    exact htidy.normalRow
  refine ⟨hrows, fun host context key rest hrender => ?_, fun above row node hrow hmem hnode => ?_⟩
  · obtain ⟨node, hnode, -⟩ := (hrows [] t.nodes .top).left _ _ _ _ hrender
    cases hnode
  · exact fun settings run behind page => renderNodes_of_confines hnode behind page

/-- A `leave` in a conditional in a loop, and text on both sides of what leaves no node. -/
theorem compile_normal_loop :
    let body : List Node := [.choose [.mk (.identifier ⟨37, 38⟩ "x") [.leave]] [], .text "c"]
    let t : Template :=
      { nodes := [.text "ab", .forEach "x" (.identifier ⟨24, 26⟩ "xs") body [], .text "d"]
        escapeDefault := true
        pageProtocol := "http:" }
    Template.compile
        "a<% %>b<% foreach (x in xs) %><% if (x) %><% foreachbreak %><% /if %>c<% /foreach %>d" {} = .ok t ∧
      t.NormalForm := by
  intro body t
  have hcompile : Template.compile
      "a<% %>b<% foreach (x in xs) %><% if (x) %><% foreachbreak %><% /if %>c<% /foreach %>d" {} = .ok t := rfl
  exact ⟨hcompile, compile_normal hcompile⟩

end Stencil
