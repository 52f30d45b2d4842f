/-
Stencil/Proofs/Joining.lean

Rows of pieces put one behind the other, and their trees.  Nesting takes a piece
without asking where the pieces stand (`Nesting.step_moved`), what stands in front of
the outermost nodes (`Nesting.step_onto`), and whether guards for sub-templates have
been placed (`Nesting.step_unguarded`): each of these is a change of the state that
every step commutes with.  Only for text it matters what stands in front, as it goes
on with text there, and so it does in the trees (`joinNodes`).

The main result, `nest_append`: behind a row that has a tree, a row has the tree or
the fault it has by itself.  If it closes a definition, the guard of the first row is
not placed.
-/
import Stencil.Proofs.MovedCode
import Stencil.Proofs.LastDefinition

namespace Stencil

/-- Whether an item may be left early is told by what the open blocks are. -/
theorem any_breakable_map {f : List Node → List Node} {g : OpenBlock → OpenBlock}
    (hg : ∀ block, (g block).breakable = block.breakable) (opened : List (List Node × OpenBlock)) :
    ((opened.map (Prod.map f g)).any fun (_, block) => block.breakable) =
      opened.any fun (_, block) => block.breakable := by
  rw [List.any_map]
  congr 1
  funext ⟨_, block⟩
  exact hg block

/-! ### Trees that move -/

mutual

/-- The same node `k` bytes further back. -/
def Node.moved (k : Nat) : Node → Node
  | .text chars => .text chars
  | .output form value => .output form (value.moved k)
  | .declare name value => .declare name (value.map (·.moved k))
  | .evaluate value => .evaluate (value.moved k)
  | .choose branches last => .choose (movedBranches k branches) (movedNodes k last)
  | .forEach item collection body last =>
    .forEach item (collection.moved k) (movedNodes k body) (movedNodes k last)
  | .leave => .leave
  | .define name parameters body => .define name parameters (movedNodes k body)
  | .run name arguments span => .run name (arguments.map (·.moved k)) (span.moved k)
  | .dispatch => .dispatch

/-- The same nodes `k` bytes further back. -/
def movedNodes (k : Nat) : List Node → List Node
  | [] => []
  | node :: nodes => node.moved k :: movedNodes k nodes

/-- The same branches `k` bytes further back. -/
def movedBranches (k : Nat) : List Branch → List Branch
  | [] => []
  | .mk condition body :: branches =>
    .mk (condition.moved k) (movedNodes k body) :: movedBranches k branches

end

/-- The same branch `k` bytes further back. -/
def Branch.moved (k : Nat) : Branch → Branch
  | .mk condition body => .mk (condition.moved k) (movedNodes k body)

/-- The same open block `k` bytes further back. -/
def OpenBlock.moved (k : Nat) : OpenBlock → OpenBlock
  | .branch span before condition =>
    .branch (span.moved k) (before.map (·.moved k)) (condition.moved k)
  | .otherwise span branches => .otherwise (span.moved k) (branches.map (·.moved k))
  | .loop span item collection => .loop (span.moved k) item (collection.moved k)
  | .loopElse span item collection body =>
    .loopElse (span.moved k) item (collection.moved k) (movedNodes k body)
  | .definition span name parameters => .definition (span.moved k) name parameters

/-- The same state of nesting `k` bytes further back. -/
def Nesting.moved (k : Nat) (n : Nesting) : Nesting :=
  ⟨n.opened.map (Prod.map (List.map (·.moved k)) (·.moved k)), n.nodes.map (·.moved k)⟩

section Moving

variable {k : Nat}

theorem movedNodes_eq (nodes : List Node) : movedNodes k nodes = nodes.map (·.moved k) := by
  induction nodes with
  | nil => rfl
  | cons node nodes ih => rw [movedNodes, ih, List.map_cons]

theorem movedBranches_eq (branches : List Branch) :
    movedBranches k branches = branches.map (·.moved k) := by
  induction branches with
  | nil => rfl
  | cons branch branches ih =>
    obtain ⟨condition, body⟩ := branch
    rw [movedBranches, ih, List.map_cons, Branch.moved]

theorem endsDefinition_moved (items : List Item) :
    endsDefinition (items.map (·.moved k)) = endsDefinition items := by
  rw [endsDefinition, List.any_map]
  congr 1
  funext item
  cases item with
  | text => rfl
  | directive taken span => cases taken <;> rfl

namespace Nesting

theorem addText_moved (n : Nesting) (text : List Char) :
    (n.moved k).addText text = (n.addText text).moved k := by
  obtain ⟨opened, nodes⟩ := n
  rcases text with - | ⟨c, text⟩
  · rfl
  rcases nodes with - | ⟨node, nodes⟩
  · rfl
  · cases node <;> rfl

theorem add_statements_moved (statements : List Statement) (n : Nesting) :
    (statements.map (·.moved k)).foldl (fun n s => n.add (.ofStatement s)) (n.moved k) =
      (statements.foldl (fun n s => n.add (.ofStatement s)) n).moved k := by
  rw [List.foldl_map]
  exact List.foldl_hom (Nesting.moved k) fun n s => by cases s <;> rfl

/-- A step takes a directive that stands further back as it takes the directive. -/
theorem step_moved (n : Nesting) (directive : Directive) (span : Span) (last : Bool) :
    (n.moved k).step (directive.moved k) (span.moved k) last =
      carry (CompileFault.moved k) (·.moved k) (n.step directive span last) := by
  obtain ⟨opened, nodes⟩ := n
  cases directive with
  | output | run | ifThen | forEach | define => rfl
  | statements listed => exact congrArg Except.ok (add_statements_moved listed _)
  | forEachBreak =>
    have hbreakable (block : OpenBlock) : (block.moved k).breakable = block.breakable := by
      cases block <;> rfl
    simp only [Directive.moved, Nesting.moved, step, any_breakable_map hbreakable]
    split <;> rfl
  | _ =>
    -- the other directives look at the innermost block only
    rcases opened with - | ⟨⟨before, _ | _ | _ | _ | _⟩, opened⟩ <;> cases last <;> first
      | rfl
      | simp [Directive.moved, Nesting.moved, step, Node.moved, OpenBlock.moved, Branch.moved,
          movedNodes_eq, movedBranches_eq]

/-- A row that stands further back has the same tree or fault further back. -/
theorem readAll_moved (n : Nesting) (items : List Item) :
    (n.moved k).readAll (items.map (·.moved k)) =
      carry (CompileFault.moved k) (movedNodes k) (n.readAll items) := by
  induction items generalizing n with
  | nil =>
    obtain ⟨opened, nodes⟩ := n
    rcases opened with - | ⟨⟨before, block⟩, opened⟩
    · simp [readAll, close, Nesting.moved, movedNodes_eq]
    · cases block <;> rfl
  | cons item items ih =>
    cases item with
    | text text => exact (congrArg (readAll · _) (addText_moved n text)).trans (ih _)
    | directive taken span =>
      rw [List.map_cons, Item.moved, readAll, readAll, ← endsDefinition, ← endsDefinition,
        endsDefinition_moved, step_moved]
      exact carry_bind _ ih

end Nesting

theorem nest_moved (items : List Item) :
    nest (items.map (·.moved k)) = carry (CompileFault.moved k) (movedNodes k) (nest items) :=
  Nesting.readAll_moved .start items

end Moving

/-! ### Trees on top of other nodes -/

/-- The nodes of two documents as those of one: text goes on where they meet. -/
def joinNodes : List Node → List Node → List Node
  | [], back => back
  | [.text text], .text text' :: back => .text (text ++ text') :: back
  | node :: front, back => node :: joinNodes front back

theorem joinNodes_nil (front : List Node) : joinNodes front [] = front := by
  induction front with
  | nil => rfl
  | cons node front ih => rw [joinNodes.eq_3 _ _ _ (by simp), ih]

theorem joinNodes_text (front back : List Node) (text text' : String) :
    joinNodes (front ++ [.text text]) (.text text' :: back) = front ++ .text (text ++ text') :: back := by
  induction front with
  | nil => rfl
  | cons node front ih => rw [List.cons_append, joinNodes.eq_3 _ _ _ (by simp), ih, List.cons_append]

theorem joinNodes_apart (front back : List Node) (h : ∀ text, front.getLast? ≠ some (.text text)) :
    joinNodes front back = front ++ back := by
  fun_induction joinNodes front back with
  | case1 => rfl
  | case2 text => exact absurd rfl (h text)
  | case3 node front back _ ih =>
    rw [ih, List.cons_append]
    intro text ht
    refine h text ?_
    rw [List.getLast?_cons, ht]
    rfl

theorem joinNodes_concat {back : List Node} {node : Node} (front : List Node)
    (h : back ≠ [] ∨ ∀ text, node ≠ .text text) :
    joinNodes front (back ++ [node]) = joinNodes front back ++ [node] := by
  fun_induction joinNodes front back with
  | case1 => rfl
  | case2 text text' back => rfl
  | case3 last front back hlast ih => 
    rw [joinNodes.eq_3, ih h, List.cons_append]
    intro text text' behind hback ht hfront
    rcases back with - | ⟨first, back⟩
    · exact h.elim (absurd rfl) fun h => h text' (List.cons.inj hback).1
    · obtain rfl := (List.cons.inj hback).1
      exact hlast text text' back rfl ht hfront

/-- Puts nodes behind others, both held last first. -/
def putOnto (base : List Node) : List Node → List Node
  | [] => base
  | [.text text] =>
    match base with
    | .text before :: base => .text (before ++ text) :: base
    | _ => .text text :: base
  | node :: nodes => node :: putOnto base nodes

/-- Puts the outermost nodes behind others. -/
def putOpenedOnto (base : List Node) :
    List (List Node × OpenBlock) → List (List Node × OpenBlock)
  | [] => []
  | [(before, block)] => [(putOnto base before, block)]
  | top :: opened => top :: putOpenedOnto base opened

/-- The same state of nesting with other nodes in front of all. -/
def Nesting.onto (base : List Node) (n : Nesting) : Nesting :=
  match n.opened with
  | [] => ⟨[], putOnto base n.nodes⟩
  | opened => ⟨putOpenedOnto base opened, n.nodes⟩

section Onto

variable {base : List Node}

/-- A node that is not text. -/
def Node.isText : Node → Bool
  | .text _ => true
  | _ => false

theorem putOnto_cons {node : Node} (h : node.isText = false) (nodes : List Node) :
    putOnto base (node :: nodes) = node :: putOnto base nodes := by
  cases node with
  | text => cases h
  | _ => rfl

theorem reverse_putOnto (nodes : List Node) :
    (putOnto base nodes).reverse = joinNodes base.reverse nodes.reverse := by
  fun_induction putOnto base nodes with
  | case1 => exact (joinNodes_nil _).symm
  | case2 text before rest hbase =>
    subst hbase
    simp [joinNodes_text]
  | case3 text hbase =>
    have hlast (before : String) : base.reverse.getLast? ≠ some (.text before) := by
      intro hlast
      rw [List.getLast?_reverse] at hlast
      obtain ⟨rest, hrest⟩ := List.head?_eq_some_iff.mp hlast
      exact hbase before rest hrest
    rw [List.reverse_singleton, joinNodes_apart _ _ hlast, List.reverse_cons]
  | case4 node nodes hnode ih =>
    rw [List.reverse_cons, List.reverse_cons, ih, joinNodes_concat]
    rcases nodes with - | ⟨first, nodes⟩
    · exact .inr fun text ht => hnode text ht rfl
    · exact .inl (by simp)

namespace Nesting

theorem addText_onto (n : Nesting) (text : List Char) :
    (n.onto base).addText text = (n.addText text).onto base := by
  obtain ⟨opened, nodes⟩ := n
  rcases text with - | ⟨c, text⟩
  · rfl
  rcases opened with - | ⟨top, opened⟩
  · -- at the seam the text goes on with the text in front of it
    rcases nodes with - | ⟨node, nodes⟩
    · rcases base with - | ⟨last, base⟩
      · rfl
      · cases last <;> rfl
    cases node with
    | text before =>
      rcases nodes with - | ⟨node, nodes⟩
      · rcases base with - | ⟨last, base⟩
        · rfl
        · cases last with
          | text front =>
            exact congrArg (fun joined => (⟨[], .text joined :: base⟩ : Nesting)) (String.append_assoc ..)
          | _ => rfl
      · rfl
    | _ => rfl
  · rcases nodes with - | ⟨node, nodes⟩
    · rfl
    · cases node <;> rfl

theorem add_onto {node : Node} (h : node.isText = false) (n : Nesting) :
    (n.onto base).add node = (n.add node).onto base := by
  obtain ⟨opened, nodes⟩ := n
  cases opened with
  | nil => exact congrArg (Nesting.mk []) (putOnto_cons h nodes).symm
  | cons top opened => rfl

theorem add_statements_onto (statements : List Statement) (n : Nesting) :
    statements.foldl (fun n s => n.add (.ofStatement s)) (n.onto base) =
      (statements.foldl (fun n s => n.add (.ofStatement s)) n).onto base :=
  List.foldl_hom (Nesting.onto base) fun n s => add_onto (by cases s <;> rfl) n

theorem any_breakable_onto (opened : List (List Node × OpenBlock)) :
    ((putOpenedOnto base opened).any fun (_, block) => block.breakable) =
      opened.any fun (_, block) => block.breakable := by
  fun_induction putOpenedOnto base opened with
  | case1 => rfl
  | case2 => rfl
  | case3 top opened _ ih => rw [List.any_cons, List.any_cons, ih]

/-- A step does the same behind other nodes. -/
theorem step_onto (n : Nesting) (directive : Directive) (span : Span) (last : Bool) :
    (n.onto base).step directive span last = carry id (·.onto base) (n.step directive span last) := by
  obtain ⟨opened, nodes⟩ := n
  cases directive with
  | output | run => exact congrArg Except.ok (add_onto rfl _)
  | ifThen | forEach | define => rcases opened with - | ⟨top, opened⟩ <;> rfl
  | statements listed => exact congrArg Except.ok (add_statements_onto listed _)
  | forEachBreak =>
    have hopened : (Nesting.onto base ⟨opened, nodes⟩).opened = putOpenedOnto base opened := by
      rcases opened with - | ⟨top, opened⟩ <;> rfl
    simp only [step, hopened, any_breakable_onto]
    split
    · exact congrArg Except.ok (add_onto rfl _)
    · rfl
  | _ =>
    -- the innermost block may be the outermost as well
    rcases opened with - | ⟨⟨before, _ | _ | _ | _ | _⟩, - | ⟨top, opened⟩⟩ <;> cases last <;> rfl

/-- A row is read behind other nodes as it is read by itself. -/
theorem readAll_onto (n : Nesting) (items : List Item) :
    (n.onto base).readAll items = carry id (joinNodes base.reverse) (n.readAll items) := by
  induction items generalizing n with
  | nil =>
    obtain ⟨opened, nodes⟩ := n
    rcases opened with - | ⟨⟨before, block⟩, - | ⟨top, opened⟩⟩
    · exact congrArg Except.ok (reverse_putOnto nodes)
    · rfl
    · rfl
  | cons item items ih =>
    cases item with
    | text text => exact (congrArg (readAll · _) (addText_onto n text)).trans (ih _)
    | directive taken span =>
      rw [readAll, readAll, step_onto]
      exact carry_bind _ ih

end Nesting

end Onto

/-! ### Trees without guards -/

mutual

/-- A node without the guards for sub-templates in it; a guard leaves nothing. -/
def Node.unguarded : Node → List Node
  | .dispatch => []
  | .choose branches last => [.choose (unguardedBranches branches) (unguardedNodes last)]
  | .forEach item collection body last =>
    [.forEach item collection (unguardedNodes body) (unguardedNodes last)]
  | .define name parameters body => [.define name parameters (unguardedNodes body)]
  | node => [node]

/-- Nodes without the guards for sub-templates in them. -/
def unguardedNodes : List Node → List Node
  | [] => []
  | node :: nodes => node.unguarded ++ unguardedNodes nodes

/-- Branches without the guards for sub-templates in them. -/
def unguardedBranches : List Branch → List Branch
  | [] => []
  | .mk condition body :: branches =>
    .mk condition (unguardedNodes body) :: unguardedBranches branches

end

/-- A branch without the guards for sub-templates in it. -/
def Branch.unguarded : Branch → Branch
  | .mk condition body => .mk condition (unguardedNodes body)

/-- An open block without the guards for sub-templates in it. -/
def OpenBlock.unguarded : OpenBlock → OpenBlock
  | .branch span before condition => .branch span (before.map Branch.unguarded) condition
  | .otherwise span branches => .otherwise span (branches.map Branch.unguarded)
  | .loopElse span item collection body => .loopElse span item collection (unguardedNodes body)
  | block => block

/-- The state of nesting in which no guard for sub-templates has been placed. -/
def Nesting.unguarded (n : Nesting) : Nesting :=
  ⟨n.opened.map (Prod.map unguardedNodes OpenBlock.unguarded), unguardedNodes n.nodes⟩

theorem unguardedNodes_append (nodes others : List Node) :
    unguardedNodes (nodes ++ others) = unguardedNodes nodes ++ unguardedNodes others := by
  induction nodes with
  | nil => rfl
  | cons node nodes ih => rw [List.cons_append, unguardedNodes, ih, unguardedNodes, List.append_assoc]

theorem unguardedNodes_reverse (nodes : List Node) :
    unguardedNodes nodes.reverse = (unguardedNodes nodes).reverse := by
  induction nodes with
  | nil => rfl
  | cons node nodes ih =>
    have hnode : node.unguarded.reverse = node.unguarded := by cases node <;> rfl
    rw [List.reverse_cons, unguardedNodes_append, ih]
    simp [unguardedNodes, hnode]

theorem unguardedBranches_eq (branches : List Branch) :
    unguardedBranches branches = branches.map Branch.unguarded := by
  induction branches with
  | nil => rfl
  | cons branch branches ih =>
    obtain ⟨condition, body⟩ := branch
    rw [unguardedBranches, ih, List.map_cons, Branch.unguarded]

namespace Nesting

theorem addText_unguarded {n : Nesting} (hn : Seated n.nodes) (text : List Char) :
    n.unguarded.addText text = (n.addText text).unguarded := by
  obtain ⟨opened, nodes⟩ := n
  rcases text with - | ⟨c, text⟩
  · rfl
  rcases nodes with - | ⟨node, nodes⟩
  · rfl
  cases node with
  | dispatch =>
    -- a guard stands behind a definition, so the text goes on with nothing
    obtain ⟨name, parameters, body, rest, rfl⟩ := hn
    rfl
  | _ => rfl

theorem add_statements_unguarded (statements : List Statement) (n : Nesting) :
    statements.foldl (fun n s => n.add (.ofStatement s)) n.unguarded =
      (statements.foldl (fun n s => n.add (.ofStatement s)) n).unguarded :=
  List.foldl_hom Nesting.unguarded fun n s => by cases s <;> rfl

/-- A step that places no guard does the same where none has been placed. -/
theorem step_unguarded (n : Nesting) (directive : Directive) (span : Span) (last : Bool) :
    n.unguarded.step directive span false =
      carry id Nesting.unguarded (n.step directive span last) := by
  obtain ⟨opened, nodes⟩ := n
  cases directive with
  | output | run | ifThen | forEach | define => rfl
  | statements listed => exact congrArg Except.ok (add_statements_unguarded listed _)
  | forEachBreak =>
    have hbreakable (block : OpenBlock) : block.unguarded.breakable = block.breakable := by
      cases block <;> rfl
    simp only [Nesting.unguarded, step, any_breakable_map hbreakable]
    split <;> rfl
  | _ =>
    rcases opened with - | ⟨⟨before, _ | _ | _ | _ | _⟩, opened⟩ <;> cases last <;> first
      | rfl
      | simp [Nesting.unguarded, step, Node.unguarded, OpenBlock.unguarded, Branch.unguarded,
          unguardedNodes, unguardedNodes_reverse, unguardedBranches_eq]

/-- Where a definition is closed later on, a row is read without placing a guard. -/
theorem run_unguarded {n : Nesting} (hn : Seated n.nodes) (later : Bool) (items : List Item) :
    n.unguarded.run true items = carry id Nesting.unguarded (n.run later items) := by
  induction items generalizing n with
  | nil => rfl
  | cons item items ih =>
    cases item with
    | text text =>
      exact (congrArg (run true · items) (addText_unguarded hn text)).trans
        (ih (lists_addText hn text).seated)
    | directive taken span =>
      rw [run, run, Bool.or_true, Bool.not_true, step_unguarded]
      rcases hstep : n.step taken span !(endsDefinition items || later) with fault | next
      · rfl
      · exact ih (lists_step hn hstep).seated

/-- A row that has a tree leaves nothing open. -/
theorem run_of_nest {items : List Item} {nodes : List Node} (h : nest items = .ok nodes) :
    start.run false items = .ok ⟨[], nodes.reverse⟩ := by
  rw [nest, ← List.append_nil items, readAll_append] at h
  rcases hrun : start.run (endsDefinition []) items with fault | ⟨opened, held⟩
  · rw [hrun] at h
    cases h
  rw [hrun] at h
  rcases opened with - | ⟨⟨before, block⟩, opened⟩
  · obtain rfl : held.reverse = nodes := Except.ok.inj h
    rw [List.reverse_reverse, ← hrun]
    rfl
  · cases h

end Nesting

/-- **Trees of rows put one behind the other.**  Behind a row that has a tree, a row has the tree or the
fault it has by itself. -/
theorem nest_append {front back : List Item} {nodes : List Node} (h : nest front = .ok nodes) :
    nest (front ++ back) =
      carry id (joinNodes (if endsDefinition back then unguardedNodes nodes else nodes)) (nest back) := by
  have hrun : Nesting.start.run (endsDefinition back) front = .ok (Nesting.start.onto
      (if endsDefinition back then unguardedNodes nodes else nodes).reverse) := by
    cases endsDefinition back with
    | false => exact Nesting.run_of_nest h
    | true =>
      have hunguarded := Nesting.run_unguarded (n := .start) trivial false front
      rw [Nesting.run_of_nest h, carry_ok] at hunguarded
      refine hunguarded.trans (congrArg (fun held => Except.ok (⟨[], held⟩ : Nesting)) ?_)
      exact unguardedNodes_reverse nodes
  rw [nest, Nesting.readAll_append, hrun]
  exact (Nesting.readAll_onto .start back).trans (by rw [List.reverse_reverse, nest])

end Stencil
