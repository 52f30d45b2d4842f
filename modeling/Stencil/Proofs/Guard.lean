/-
Stencil/Proofs/Guard.lean

Where the guard for sub-templates stands.  `GuardAt name parameters body front nodes`
says that in `nodes` a guard stands right behind a definition, outside of all others,
with `front` listed before the definition.  Once the guard is in its place, no
directive that is read behind it moves it (`Guarded.step`), and the guards of a tree
are counted step by step (`guards_step`).

* `guardAt_nest` — the guard of a tree stands right behind the definition that its
  row closes last;
* `guardsIn_nest` — there is one guard where something is defined, and none
  elsewhere.
-/
import Stencil.Proofs.LastDefinition
import Stencil.Proofs.Parts

namespace Stencil

/-! ### Where a guard stands -/

/-- In the nodes a guard stands right behind a definition of the given name, in the same list and outside
of all definitions; `front` is listed before the definition. -/
inductive GuardAt (name : String) (parameters : List String) (body : List Node) :
    List Mark → List Node → Prop
  | here {before after : List Node} :
      GuardAt name parameters body (marksOf before)
        (before ++ .define name parameters body :: .dispatch :: after)
  | branch {before after nodes otherwise : List Node} {earlier later : List Branch}
      {condition : Expression} {front : List Mark} :
      GuardAt name parameters body front nodes →
      GuardAt name parameters body
        (marksOf before ++ (marksOfBranches .ifThen (earlier ++ [.mk condition []]) ++ front))
        (before ++ .choose (earlier ++ .mk condition nodes :: later) otherwise :: after)
  | otherwise {before after nodes : List Node} {branches : List Branch} {front : List Mark} :
      GuardAt name parameters body front nodes →
      GuardAt name parameters body
        (marksOf before ++ (marksOfBranches .ifThen branches ++ .otherwise :: front))
        (before ++ .choose branches nodes :: after)
  | loop {before after nodes otherwise : List Node} {item : String} {collection : Expression}
      {front : List Mark} :
      GuardAt name parameters body front nodes →
      GuardAt name parameters body (marksOf before ++ .forEach item collection :: front)
        (before ++ .forEach item collection nodes otherwise :: after)
  | loopElse {before after nodes loop : List Node} {item : String} {collection : Expression}
      {front : List Mark} :
      GuardAt name parameters body front nodes →
      GuardAt name parameters body
        (marksOf before ++ .forEach item collection :: (marksOf loop ++ .forEachElse :: front))
        (before ++ .forEach item collection loop nodes :: after)

section GuardAt

variable {name : String} {parameters : List String} {body : List Node} {front : List Mark}
  {nodes : List Node}

/-- What stands behind the guard does not matter. -/
theorem GuardAt.append (h : GuardAt name parameters body front nodes) (more : List Node) :
    GuardAt name parameters body front (nodes ++ more) := by
  cases h with
  | here =>
    rw [List.append_assoc]
    exact .here
  | branch h =>
    rw [List.append_assoc]
    exact .branch h
  | otherwise h =>
    rw [List.append_assoc]
    exact .otherwise h
  | loop h =>
    rw [List.append_assoc]
    exact .loop h
  | loopElse h =>
    rw [List.append_assoc]
    exact .loopElse h

/-- What stands before is listed in front. -/
theorem GuardAt.prepend (before : List Node) (h : GuardAt name parameters body front nodes) :
    GuardAt name parameters body (marksOf before ++ front) (before ++ nodes) := by
  -- in every case the constructor is the same, with `before` in front of its own nodes
  cases h with
  | here =>
    rw [← marksOf_append, ← List.append_assoc]
    exact .here
  | branch h =>
    rw [← List.append_assoc (marksOf before), ← marksOf_append, ← List.append_assoc before]
    exact .branch h
  | otherwise h =>
    rw [← List.append_assoc (marksOf before), ← marksOf_append, ← List.append_assoc before]
    exact .otherwise h
  | loop h =>
    rw [← List.append_assoc (marksOf before), ← marksOf_append, ← List.append_assoc before]
    exact .loop h
  | loopElse h =>
    rw [← List.append_assoc (marksOf before), ← marksOf_append, ← List.append_assoc before]
    exact .loopElse h

/-- A last node that is not the one that is looked for is not needed. -/
private theorem eq_append_of_concat {before after nodes : List Node} {node last : Node}
    (h : nodes ++ [last] = before ++ node :: after) (hne : node ≠ last) :
    ∃ rest, nodes = before ++ node :: rest := by
  rcases List.eq_nil_or_concat after with rfl | ⟨rest, other, rfl⟩
  · have hlast := (List.append_inj' h rfl).2
    exact absurd (List.cons.inj hlast).1.symm hne
  · have hall : nodes ++ [last] = (before ++ node :: rest) ++ [other] := by simpa using h
    exact ⟨rest, (List.append_inj' hall rfl).1⟩

/-- A text holds no guard, and no guard stands right in front of its definition. -/
theorem GuardAt.of_concat_text {text : String}
    (h : GuardAt name parameters body front (nodes ++ [.text text])) :
    GuardAt name parameters body front nodes := by
  generalize hall : nodes ++ [.text text] = all at h
  cases h with
  | @here before after =>
    have hall : nodes ++ [.text text] =
        (before ++ [.define name parameters body]) ++ .dispatch :: after := by simpa using hall
    obtain ⟨rest, rfl⟩ := eq_append_of_concat hall nofun
    rw [List.append_assoc]
    exact .here
  | branch h =>
    obtain ⟨rest, rfl⟩ := eq_append_of_concat hall nofun
    exact .branch h
  | otherwise h =>
    obtain ⟨rest, rfl⟩ := eq_append_of_concat hall nofun
    exact .otherwise h
  | loop h =>
    obtain ⟨rest, rfl⟩ := eq_append_of_concat hall nofun
    exact .loop h
  | loopElse h =>
    obtain ⟨rest, rfl⟩ := eq_append_of_concat hall nofun
    exact .loopElse h

theorem GuardAt.otherwise_node {branches : List Branch}
    (h : GuardAt name parameters body front nodes) :
    GuardAt name parameters body (marksOfBranches .ifThen branches ++ .otherwise :: front)
      [.choose branches nodes] := by
  have hnode : GuardAt name parameters body (marksOf [] ++ _) ([] ++ .choose branches nodes :: []) :=
    .otherwise h
  exact hnode

theorem GuardAt.loop_node {item : String} {collection : Expression} {otherwise : List Node}
    (h : GuardAt name parameters body front nodes) :
    GuardAt name parameters body (.forEach item collection :: front)
      [.forEach item collection nodes otherwise] := by
  have hnode : GuardAt name parameters body (marksOf [] ++ _)
      ([] ++ .forEach item collection nodes otherwise :: []) := .loop h
  exact hnode

theorem GuardAt.loopElse_node {item : String} {collection : Expression} {loop : List Node}
    (h : GuardAt name parameters body front nodes) :
    GuardAt name parameters body
      (.forEach item collection :: (marksOf loop ++ .forEachElse :: front))
      [.forEach item collection loop nodes] := by
  have hnode : GuardAt name parameters body (marksOf [] ++ _)
      ([] ++ .forEach item collection loop nodes :: []) := .loopElse h
  exact hnode

/-- The same for the nodes of one of some branches. -/
inductive GuardInBranches (name : String) (parameters : List String) (body : List Node) :
    List Mark → List Branch → Prop
  | mk {earlier later : List Branch} {condition : Expression} {nodes : List Node}
      {front : List Mark} :
      GuardAt name parameters body front nodes →
      GuardInBranches name parameters body
        (marksOfBranches .ifThen (earlier ++ [.mk condition []]) ++ front)
        (earlier ++ .mk condition nodes :: later)

/-- The guard stands in the last of some branches, which are held last first. -/
theorem GuardInBranches.of_last (branches : List Branch) (condition : Expression)
    (h : GuardAt name parameters body front nodes) :
    GuardInBranches name parameters body
      (marksOfBranches .ifThen (Branch.mk condition [] :: branches).reverse ++ front)
      (Branch.mk condition nodes :: branches).reverse := by
  rw [List.reverse_cons, List.reverse_cons]
  exact .mk h

/-- The guard stands in a branch before the last one. -/
theorem GuardInBranches.of_earlier {branches : List Branch}
    (h : GuardInBranches name parameters body front branches.reverse) (branch : Branch) :
    GuardInBranches name parameters body front (branch :: branches).reverse := by
  rw [List.reverse_cons]
  generalize branches.reverse = listed at h
  cases h with
  | mk h =>
    rw [List.append_assoc]
    exact .mk h

theorem GuardInBranches.choose {branches : List Branch}
    (h : GuardInBranches name parameters body front branches) (otherwise : List Node) :
    GuardAt name parameters body front [.choose branches otherwise] := by
  cases h with
  | @mk earlier later condition nodes front h =>
    have hnode : GuardAt name parameters body (marksOf [] ++ _)
        ([] ++ .choose (earlier ++ .mk condition nodes :: later) otherwise :: []) := .branch h
    exact hnode

/-! ### A guard keeps its place -/

/-- The guard stands in what is complete of an open block. -/
def OpenBlock.Holds (name : String) (parameters : List String) (body : List Node)
    (front : List Mark) : OpenBlock → Prop
  | .branch _ branches _ | .otherwise _ branches =>
    GuardInBranches name parameters body front branches.reverse
  | .loopElse _ item collection nodes =>
    ∃ inner, front = .forEach item collection :: inner ∧ GuardAt name parameters body inner nodes
  | .loop .. | .definition .. => False

namespace Nesting

/-- The guard stands in what has been nested so far, with `front` listed before its definition. -/
inductive Guarded (name : String) (parameters : List String) (body : List Node) :
    List Mark → Nesting → Prop
  | here {opened : List (List Node × OpenBlock)} {nodes : List Node} {front : List Mark} :
      GuardAt name parameters body front nodes.reverse →
      Guarded name parameters body (marksOfOpened opened ++ front) ⟨opened, nodes⟩
  | block {opened : List (List Node × OpenBlock)} {before nodes : List Node} {block : OpenBlock}
      {front : List Mark} :
      block.Holds name parameters body front →
      Guarded name parameters body (marksOfOpened opened ++ (marksOf before.reverse ++ front))
        ⟨(before, block) :: opened, nodes⟩
  | outer {opened : List (List Node × OpenBlock)} {before nodes : List Node} {block : OpenBlock}
      {front : List Mark} :
      Guarded name parameters body front ⟨opened, before⟩ →
      Guarded name parameters body front ⟨(before, block) :: opened, nodes⟩

theorem Guarded.withNodes {n : Nesting} (h : n.Guarded name parameters body front)
    {others : List Node}
    (hothers : ∀ front, GuardAt name parameters body front n.nodes.reverse →
      GuardAt name parameters body front others.reverse) :
    Guarded name parameters body front { n with nodes := others } := by
  cases h with
  | here h => exact .here (hothers _ h)
  | block h => exact .block h
  | outer h => exact .outer h

theorem Guarded.add {n : Nesting} (h : n.Guarded name parameters body front) (node : Node) :
    (n.add node).Guarded name parameters body front :=
  h.withNodes fun _ h => by
    rw [List.reverse_cons]
    exact h.append [node]

theorem Guarded.addText {n : Nesting} (h : n.Guarded name parameters body front)
    (text : List Char) : (n.addText text).Guarded name parameters body front := by
  fun_cases Nesting.addText n text with
  | case1 => exact h
  | case2 _ before rest hnodes =>
    refine h.withNodes fun front h => ?_
    rw [hnodes, List.reverse_cons] at h
    rw [List.reverse_cons]
    exact h.of_concat_text.append _
  | case3 => exact h.add _

theorem Guarded.addAll {n : Nesting} (h : n.Guarded name parameters body front)
    (statements : List Statement) :
    (statements.foldl (fun n s => n.add (.ofStatement s)) n).Guarded name parameters body
      front := by
  induction statements generalizing n with
  | nil => exact h
  | cons s statements ih => exact ih (h.add _)

/-- A block goes on with other nodes, and those at hand are complete. -/
theorem Guarded.split {opened : List (List Node × OpenBlock)} {before nodes : List Node}
    {block : OpenBlock} (h : Guarded name parameters body front ⟨(before, block) :: opened, nodes⟩)
    (next : OpenBlock)
    (hhere : ∀ front, GuardAt name parameters body front nodes.reverse →
      next.Holds name parameters body (block.marks ++ front))
    (hblock : ∀ front, block.Holds name parameters body front →
      next.Holds name parameters body front) :
    Guarded name parameters body front ⟨(before, next) :: opened, []⟩ := by
  cases h with
  | here h =>
    rw [marksOfOpened, List.append_assoc, List.append_assoc]
    exact .block (hhere _ h)
  | block h => exact .block (hblock _ h)
  | outer h => exact .outer h

/-- A block is closed and becomes a node. -/
theorem Guarded.close {opened : List (List Node × OpenBlock)} {before nodes : List Node}
    {block : OpenBlock} (h : Guarded name parameters body front ⟨(before, block) :: opened, nodes⟩)
    (node : Node)
    (hhere : ∀ front, GuardAt name parameters body front nodes.reverse →
      GuardAt name parameters body (block.marks ++ front) [node])
    (hblock : ∀ front, block.Holds name parameters body front →
      GuardAt name parameters body front [node]) :
    Guarded name parameters body front ⟨opened, node :: before⟩ := by
  cases h with
  | here h =>
    rw [marksOfOpened, List.append_assoc, List.append_assoc]
    refine .here ?_
    rw [List.reverse_cons]
    exact (hhere _ h).prepend _
  | block h =>
    refine .here ?_
    rw [List.reverse_cons]
    exact (hblock _ h).prepend _
  | outer h => exact h.add node

/-- A directive that neither opens nor closes a definition leaves the guard in its place. -/
theorem Guarded.step {n next : Nesting} {directive : Directive} {span : Span} {last : Bool}
    (h : n.Guarded name parameters body front) (hstep : n.step directive span last = .ok next)
    (hopens : (Item.directive directive span).opensDefinition = false)
    (hends : (Item.directive directive span).endsDefinition = false) :
    next.Guarded name parameters body front := by
  obtain ⟨opened, nodes⟩ := n
  cases directive with
  -- more nodes behind it, or another block around what comes next, leave the guard where it is
  | output | run =>
    cases hstep
    exact h.add _
  | statements list =>
    cases hstep
    exact h.addAll list
  | forEachBreak =>
    simp only [Nesting.step] at hstep
    split at hstep <;> cases hstep
    exact h.add _
  | ifThen | forEach =>
    cases hstep
    exact .outer h
  | define => cases hopens
  | endDefine => cases hends
  -- only the blocks that the directive fits are left where the step does not fail
  | elseIf condition =>
    rcases opened with - | ⟨⟨before, _ | _ | _ | _ | _⟩, opened⟩ <;> cases hstep
    exact h.split _ (fun _ h => .of_last _ _ h) fun _ h => .of_earlier h _
  | otherwise =>
    rcases opened with - | ⟨⟨before, _ | _ | _ | _ | _⟩, opened⟩ <;> cases hstep
    exact h.split _ (fun _ h => .of_last _ _ h) fun _ h => .of_earlier h _
  | forEachElse =>
    rcases opened with - | ⟨⟨before, _ | _ | _ | _ | _⟩, opened⟩ <;> cases hstep
    exact h.split _ (fun _ h => ⟨_, rfl, h⟩) fun _ h => h.elim
  -- the block becomes a node, in which the guard has the place that it had in the block
  | endIf =>
    rcases opened with - | ⟨⟨before, _ | _ | _ | _ | _⟩, opened⟩ <;> cases hstep
    · exact h.close _ (fun _ h => (GuardInBranches.of_last _ _ h).choose _)
        fun _ h => (GuardInBranches.of_earlier h _).choose _
    · refine h.close _ (fun _ h => ?_) fun _ h => GuardInBranches.choose h _
      rw [OpenBlock.marks, List.append_assoc]
      exact GuardAt.otherwise_node h
  | endForEach =>
    rcases opened with - | ⟨⟨before, _ | _ | _ | _ | _⟩, opened⟩ <;> cases hstep
    · exact h.close _ (fun _ h => GuardAt.loop_node h) fun _ h => h.elim
    · refine h.close _ (fun _ h => ?_) ?_
      · rw [OpenBlock.marks, List.cons_append, List.append_assoc]
        exact GuardAt.loopElse_node h
      · rintro _ ⟨inner, rfl, h⟩
        exact GuardAt.loop_node h

/-- What is read behind the last definition leaves the guard in its place. -/
theorem Guarded.readAll {n : Nesting} {items : List Item} {nodes : List Node}
    (h : n.Guarded name parameters body front) (hitems : Undefining items)
    (hread : n.readAll items = .ok nodes) : GuardAt name parameters body front nodes := by
  induction items generalizing n with
  | nil =>
    obtain ⟨opened, held⟩ := n
    rcases opened with - | ⟨⟨before, block⟩, opened⟩
    · obtain rfl : held.reverse = nodes := Except.ok.inj hread
      cases h with
      | here h => exact h
    · cases hread
  | cons item items ih =>
    obtain ⟨⟨hopens, hends⟩, hrest⟩ := undefining_cons.mp hitems
    cases item with
    | text text => exact ih (h.addText text) hrest hread
    | directive directive span =>
      rw [Nesting.readAll] at hread
      rcases hs : n.step directive span (!items.any Item.endsDefinition) with fault | next
      · rw [hs] at hread
        cases hread
      · rw [hs] at hread
        exact ih (h.step hs hopens hends) hrest hread

end Nesting

end GuardAt

/-! ### How many guards there are -/

theorem guardsIn_append (inner : Bool) (nodes others : List Node) :
    guardsIn inner (nodes ++ others) = guardsIn inner nodes ++ guardsIn inner others := by
  induction nodes with
  | nil => rfl
  | cons node nodes ih => simp [guardsIn, ih]

theorem guardsInBranches_append (inner : Bool) (branches others : List Branch) :
    guardsInBranches inner (branches ++ others) =
      guardsInBranches inner branches ++ guardsInBranches inner others := by
  induction branches with
  | nil => rfl
  | cons branch branches ih =>
    obtain ⟨condition, body⟩ := branch
    simp [guardsInBranches, ih]

/-- How many guards there are in some nodes. -/
def guardCount (nodes : List Node) : Nat := (guardsIn false nodes).length

/-- How many guards there are in the bodies of some branches. -/
def guardCountIn (branches : List Branch) : Nat := (guardsInBranches false branches).length

@[simp] theorem guardCount_nil : guardCount [] = 0 := rfl

@[simp] theorem guardCount_cons (node : Node) (nodes : List Node) :
    guardCount (node :: nodes) = (node.guards false).length + guardCount nodes := by
  simp [guardCount, guardsIn]

@[simp] theorem guardCount_append (nodes others : List Node) :
    guardCount (nodes ++ others) = guardCount nodes + guardCount others := by
  simp [guardCount, guardsIn_append]

@[simp] theorem guardCount_reverse (nodes : List Node) :
    guardCount nodes.reverse = guardCount nodes := by
  induction nodes with
  | nil => rfl
  | cons node nodes ih => simp [ih, Nat.add_comm]

@[simp] theorem guardCountIn_nil : guardCountIn [] = 0 := rfl

@[simp] theorem guardCountIn_cons (condition : Expression) (body : List Node)
    (branches : List Branch) :
    guardCountIn (.mk condition body :: branches) = guardCount body + guardCountIn branches := by
  simp [guardCountIn, guardCount, guardsInBranches]

@[simp] theorem guardCountIn_append (branches others : List Branch) :
    guardCountIn (branches ++ others) = guardCountIn branches + guardCountIn others := by
  simp [guardCountIn, guardsInBranches_append]

@[simp] theorem guardCountIn_reverse (branches : List Branch) :
    guardCountIn branches.reverse = guardCountIn branches := by
  induction branches with
  | nil => rfl
  | cons branch branches ih =>
    obtain ⟨condition, body⟩ := branch
    simp [ih, Nat.add_comm]

mutual

theorem Node.length_guards (inner : Bool) : (node : Node) →
    (node.guards inner).length = (node.guards false).length
  | .dispatch => rfl
  | .choose branches otherwise => by
    simp only [Node.guards, List.length_append, length_guardsInBranches inner branches,
      length_guardsIn inner otherwise]
    rfl
  | .forEach _ _ body otherwise => by
    simp only [Node.guards, List.length_append, length_guardsIn inner body,
      length_guardsIn inner otherwise]
    rfl
  | .define .. | .text _ | .output .. | .declare .. | .evaluate _ | .leave | .run .. => rfl

/-- How many guards there are does not depend on what stands around the nodes. -/
theorem length_guardsIn (inner : Bool) : (nodes : List Node) →
    (guardsIn inner nodes).length = guardCount nodes
  | [] => rfl
  | node :: nodes => by
    rw [guardsIn, List.length_append, node.length_guards inner, length_guardsIn inner nodes,
      guardCount_cons]

theorem length_guardsInBranches (inner : Bool) : (branches : List Branch) →
    (guardsInBranches inner branches).length = guardCountIn branches
  | [] => rfl
  | .mk condition body :: branches => by
    rw [guardsInBranches, List.length_append, length_guardsIn inner body,
      length_guardsInBranches inner branches, guardCountIn_cons]

end

namespace Nesting

/-- How many guards there are in what is complete of an open block. -/
def guardCountOfBlock : OpenBlock → Nat
  | .branch _ branches _ | .otherwise _ branches => guardCountIn branches
  | .loopElse _ _ _ body => guardCount body
  | .loop .. | .definition .. => 0

/-- How many guards there are in what stands before and in some open blocks. -/
def guardCountOfOpened : List (List Node × OpenBlock) → Nat
  | [] => 0
  | (before, block) :: opened =>
    guardCount before + guardCountOfBlock block + guardCountOfOpened opened

/-- How many guards there are in what has been nested so far. -/
def guards (n : Nesting) : Nat := guardCount n.nodes + guardCountOfOpened n.opened

theorem guards_addText (n : Nesting) (text : List Char) : (n.addText text).guards = n.guards := by
  fun_cases addText n text with
  | case1 => rfl
  | case2 _ before rest hnodes => simp [guards, hnodes, Node.guards]
  | case3 => simp [guards, add, Node.guards]

theorem guards_foldl_add (statements : List Statement) (n : Nesting) :
    (statements.foldl (fun n s => n.add (.ofStatement s)) n).guards = n.guards := by
  induction statements generalizing n with
  | nil => rfl
  | cons s statements ih =>
    refine (ih _).trans ?_
    cases s <;> simp [guards, add, Node.ofStatement, Node.guards]

/-- A step puts up a guard where it closes the last definition, and nowhere else. -/
theorem guards_step {n next : Nesting} {directive : Directive} {span : Span} {last : Bool}
    (h : n.step directive span last = .ok next) :
    next.guards =
      n.guards + if (Item.directive directive span).endsDefinition && last then 1 else 0 := by
  obtain ⟨opened, nodes⟩ := n
  cases directive with
  | output | run | ifThen | forEach | define =>
    cases h
    simp [guards, add, openBlock, guardCountOfOpened, guardCountOfBlock, Node.guards,
      Item.endsDefinition]
  | statements list =>
    cases h
    exact guards_foldl_add list _
  | forEachBreak =>
    simp only [step] at h
    split at h <;> cases h
    simp [guards, add, Node.guards, Item.endsDefinition]
  | elseIf | otherwise | forEachElse | endIf | endForEach =>
    rcases opened with - | ⟨⟨before, _ | _ | _ | _ | _⟩, opened⟩ <;> cases h <;>
      simp [guards, guardCountOfOpened, guardCountOfBlock, Node.guards, Item.endsDefinition,
        ← guardCount.eq_1, ← guardCountIn.eq_1] <;> omega
  | endDefine =>
    rcases opened with - | ⟨⟨before, _ | _ | _ | _ | _⟩, opened⟩ <;> cases h
    cases last <;>
      simp [guards, guardCountOfOpened, guardCountOfBlock, Node.guards, Item.endsDefinition,
        length_guardsIn] <;> omega

/-- A row has one guard more than what stands before it if it closes a definition. -/
theorem guards_readAll {n : Nesting} {items : List Item} {nodes : List Node}
    (h : n.readAll items = .ok nodes) :
    guardCount nodes = n.guards + if endsDefinition items then 1 else 0 := by
  induction items generalizing n with
  | nil =>
    obtain ⟨opened, held⟩ := n
    rcases opened with - | ⟨⟨before, block⟩, opened⟩
    · obtain rfl : held.reverse = nodes := Except.ok.inj h
      simp [guards, guardCountOfOpened]
    · cases h
  | cons item items ih =>
    cases item with
    | text text =>
      rw [ih h, guards_addText]
      rfl
    | directive directive span =>
      rw [readAll] at h
      rcases hs : n.step directive span (!items.any Item.endsDefinition) with fault | next
      · rw [hs] at h
        cases h
      · rw [hs] at h
        -- the guard of the row is that of its first piece or that of the rest
        rw [ih h, guards_step hs, endsDefinition_cons, ← endsDefinition]
        cases endsDefinition items <;>
          cases (Item.directive directive span).endsDefinition <;> rfl

end Nesting

/-! ### The guard of a tree -/

/-- The guard of a tree stands right behind the definition that its row closes last. -/
theorem guardAt_nest {items : List Item} {nodes : List Node} (h : nest items = .ok nodes)
    (l : LastDefinition items) :
    ∃ body, marksOf body = condense (l.inner.flatMap Item.marks) ∧
      GuardAt l.name l.parameters body (condense (l.before.flatMap Item.marks)) nodes := by
  have hlast : l.behind.any Item.endsDefinition = false := l.last.endsDefinition
  rw [nest, l.items_eq, Nesting.readAll_append] at h
  -- the row is read up to the definition, then the definition, then what stands behind it
  rcases hbefore : Nesting.start.run _ l.before with fault | before
  · rw [hbefore] at h
    cases h
  rw [hbefore] at h
  change (before.openBlock (.definition l.opener l.name l.parameters)).readAll _ = _ at h
  rw [Nesting.readAll_append] at h
  rcases hinner : Nesting.run _ (before.openBlock (.definition l.opener l.name l.parameters)) l.inner
    with fault | ⟨opened, body⟩
  · rw [hinner] at h
    cases h
  rw [hinner] at h
  obtain rfl : opened = _ := l.balanced.keepsOpened _ _ _ hinner
  change Nesting.readAll _ (_ :: _) = _ at h
  rw [Nesting.readAll, hlast] at h
  change Nesting.readAll ⟨before.opened,
    .dispatch :: .define l.name l.parameters body.reverse :: before.nodes⟩ _ = _ at h
  refine ⟨body.reverse, marks_run_definition hinner, ?_⟩
  rw [← (Nesting.marks_run hbefore).2]
  refine Nesting.Guarded.readAll (.here ?_) l.last h
  rw [List.reverse_cons, List.reverse_cons, List.append_assoc]
  exact .here

/-- The guard stands outside of all definitions. -/
theorem GuardAt.false_mem_guardsIn {name : String} {parameters : List String} {body : List Node}
    {front : List Mark} {nodes : List Node} (h : GuardAt name parameters body front nodes) :
    false ∈ guardsIn false nodes := by
  induction h with
  | here => simp [guardsIn_append, guardsIn, Node.guards]
  | branch _ ih =>
    simp [guardsIn_append, guardsIn, Node.guards, guardsInBranches_append, guardsInBranches, ih]
  | otherwise _ ih | loop _ ih | loopElse _ ih => simp [guardsIn_append, guardsIn, Node.guards, ih]

/-- A tree that defines something has one guard, which stands outside of all definitions, and another
tree has none. -/
theorem guardsIn_nest {items : List Item} {nodes : List Node} (h : nest items = .ok nodes) :
    guardsIn false nodes = if definedNamesOf nodes = [] then [] else [false] := by
  have hcount : (guardsIn false nodes).length = 0 + if endsDefinition items then 1 else 0 :=
    Nesting.guards_readAll h
  cases hends : endsDefinition items with
  | false =>
    rw [hends] at hcount
    rw [if_pos ((definedNamesOf_nest h).mpr hends)]
    exact List.length_eq_zero_iff.mp hcount
  | true =>
    rw [hends] at hcount
    rw [if_neg fun hnames => by rw [(definedNamesOf_nest h).mp hnames] at hends; cases hends]
    obtain ⟨l⟩ := ((nest_isOk items).mp (by rw [h]; rfl)).lastDefinition hends
    obtain ⟨body, -, hguard⟩ := guardAt_nest h l
    obtain ⟨place, hplace⟩ := List.length_eq_one_iff.mp hcount
    have hmem := hguard.false_mem_guardsIn
    rw [hplace] at hmem ⊢
    rw [List.mem_singleton.mp hmem]

end Stencil
