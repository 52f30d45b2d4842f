/-
Stencil/Proofs/Listing.lean

Trees listed in document order.  A mark is a directive without its place, or a
stretch of text; `Item.marks` reads the marks off a row of pieces and `marksOf`
off a tree, and `condense` forgets what a tree does not keep: how text was cut
into pieces, empty text, and a last branch that holds nothing.

After every step of nesting the listing of what has been nested so far is the
condensed row of what has been read (`lists_step`).  The step looks at the last
node only, and `tells_last` says what the last mark tells about that node.

The main result, `nodesOfSegments_balanced`: a row of segments has a tree exactly
if it is balanced, and the listing of the tree is the condensed row.
-/
import Stencil.Proofs.Nesting

namespace Stencil

/-! ### Marks -/

/-- What stands at one place of a document. -/
inductive Mark where
  | text (chars : List Char)
  | output (form : OutputForm) (value : Expression)
  | declare (name : String) (value : Option Expression)
  | evaluate (value : Expression)
  | run (name : String) (arguments : List Expression) (span : Span)
  | leave
  | ifThen (condition : Expression)
  | elseIf (condition : Expression)
  | otherwise
  | endIf
  | forEach (item : String) (collection : Expression)
  | forEachElse
  | endForEach
  | define (name : String) (parameters : List String)
  | endDefine

/-- The mark of a statement. -/
def Statement.mark : Statement → Mark
  | .declare name value => .declare name value
  | .evaluate value => .evaluate value

/-- The marks of a directive; statements are listed one by one. -/
def Directive.marks (span : Span) : Directive → List Mark
  | .ifThen condition => [.ifThen condition]
  | .elseIf condition => [.elseIf condition]
  | .otherwise => [.otherwise]
  | .endIf => [.endIf]
  | .forEach item collection => [.forEach item collection]
  | .forEachElse => [.forEachElse]
  | .forEachBreak => [.leave]
  | .endForEach => [.endForEach]
  | .define name parameters => [.define name parameters]
  | .endDefine => [.endDefine]
  | .run name arguments => [.run name arguments span]
  | .output form value => [.output form value]
  | .statements listed => listed.map Statement.mark

/-- The marks of a piece. -/
def Item.marks : Item → List Mark
  | .text chars => [.text chars]
  | .directive taken span => taken.marks span

mutual

/-- The marks of a node.  The last branch of a conditional or a loop is listed where it holds something,
and the guard for sub-templates not at all. -/
def Node.marks : Node → List Mark
  | .text text => [.text text.toList]
  | .output form value => [.output form value]
  | .declare name value => [.declare name value]
  | .evaluate value => [.evaluate value]
  | .choose branches otherwise =>
    marksOfBranches .ifThen branches ++
      ((if otherwise.isEmpty then [] else .otherwise :: marksOf otherwise) ++ [.endIf])
  | .forEach item collection body otherwise =>
    .forEach item collection :: (marksOf body ++
      ((if otherwise.isEmpty then [] else .forEachElse :: marksOf otherwise) ++ [.endForEach]))
  | .leave => [.leave]
  | .define name parameters body => .define name parameters :: (marksOf body ++ [.endDefine])
  | .run name arguments span => [.run name arguments span]
  | .dispatch => []

/-- The marks of a list of nodes. -/
def marksOf : List Node → List Mark
  | [] => []
  | node :: nodes => node.marks ++ marksOf nodes

/-- The marks of the branches of a conditional, the first one with the mark that `opening` makes. -/
def marksOfBranches : (opening : Expression → Mark) → List Branch → List Mark
  | _, [] => []
  | opening, .mk condition body :: branches =>
    opening condition :: (marksOf body ++ marksOfBranches .elseIf branches)

end

/-- Puts a mark behind others, which are held last first.  Text goes on with the text before it, no text
is no mark, and a last branch that ends at once leaves none. -/
def condenseStep : List Mark → Mark → List Mark
  | marks, .text [] => marks
  | .text before :: marks, .text text => .text (before ++ text) :: marks
  | .otherwise :: marks, .endIf => .endIf :: marks
  | .forEachElse :: marks, .endForEach => .endForEach :: marks
  | marks, mark => mark :: marks

/-- A mark that a mark behind it does not leave as it is. -/
def Mark.Joins : Mark → Mark → Prop
  | .text _, .text _ => True
  | .otherwise, .endIf => True
  | .forEachElse, .endForEach => True
  | _, _ => False

/-- The marks of a document without what its tree does not keep. -/
def condense (marks : List Mark) : List Mark := (marks.foldl condenseStep []).reverse

@[simp] theorem marksOf_append (nodes others : List Node) :
    marksOf (nodes ++ others) = marksOf nodes ++ marksOf others := by
  induction nodes with
  | nil => rfl
  | cons node nodes ih => simp [marksOf, ih]

theorem marksOf_reverse_cons (node : Node) (nodes : List Node) :
    marksOf (node :: nodes).reverse = marksOf nodes.reverse ++ node.marks := by
  simp [marksOf]

theorem marksOfBranches_append (opening : Expression → Mark) (branches others : List Branch) :
    marksOfBranches opening (branches ++ others) =
      marksOfBranches opening branches ++
        marksOfBranches (if branches.isEmpty then opening else .elseIf) others := by
  induction branches generalizing opening with
  | nil => rfl
  | cons branch branches ih =>
    obtain ⟨condition, body⟩ := branch
    simp only [List.cons_append, marksOfBranches, ih, List.append_assoc, List.isEmpty_cons]
    split <;> rfl

/-- The nodes of the last branch are listed behind the branches. -/
theorem marksOfBranches_reverse_cons (opening : Expression → Mark) (condition : Expression)
    (body : List Node) (before : List Branch) :
    marksOfBranches opening (.mk condition body :: before).reverse =
      marksOfBranches opening (.mk condition [] :: before).reverse ++ marksOf body := by
  simp [marksOfBranches_append, marksOfBranches, marksOf]

/-! ### What is nested so far -/

/-- What an open block lists in front of the nodes at hand. -/
def OpenBlock.marks : OpenBlock → List Mark
  | .branch _ before condition => marksOfBranches .ifThen (Branch.mk condition [] :: before).reverse
  | .otherwise _ branches => marksOfBranches .ifThen branches.reverse ++ [.otherwise]
  | .loop _ item collection => [.forEach item collection]
  | .loopElse _ item collection body => .forEach item collection :: (marksOf body ++ [.forEachElse])
  | .definition _ name parameters => [.define name parameters]

/-- What some open blocks list in front of the nodes at hand, innermost block first. -/
def marksOfOpened : List (List Node × OpenBlock) → List Mark
  | [] => []
  | (before, block) :: opened => marksOfOpened opened ++ (marksOf before.reverse ++ block.marks)

theorem condenseStep_eq_cons {marks : List Mark} {mark : Mark} (hm : mark ≠ .text [])
    (h : ∀ last ∈ marks.head?, ¬ last.Joins mark) : condenseStep marks mark = mark :: marks := by
  fun_cases condenseStep marks mark <;> simp_all [Mark.Joins]

/-- Text may go on with what stands before it, and the end of a block may take back its last branch. -/
def Mark.mayJoin : Mark → Bool
  | .text _ | .endIf | .endForEach => true
  | _ => false

theorem Mark.Joins.mayJoin {last mark : Mark} (h : last.Joins mark) : mark.mayJoin = true := by
  cases last <;> cases mark <;> first | rfl | cases h

/-- The mark a node ends with. -/
def Node.lastMark? : Node → Option Mark
  | .text chars => some (.text chars.toList)
  | .output form value => some (.output form value)
  | .declare name value => some (.declare name value)
  | .evaluate value => some (.evaluate value)
  | .choose .. => some .endIf
  | .forEach .. => some .endForEach
  | .leave => some .leave
  | .define .. => some .endDefine
  | .run name arguments span => some (.run name arguments span)
  | .dispatch => none

/-- The mark that stands right in front of the nodes at hand of an open block. -/
def OpenBlock.lastMark : OpenBlock → Mark
  | .branch _ [] condition => .ifThen condition
  | .branch _ (_ :: _) condition => .elseIf condition
  | .otherwise .. => .otherwise
  | .loop _ item collection => .forEach item collection
  | .loopElse .. => .forEachElse
  | .definition _ name parameters => .define name parameters

theorem Node.getLast?_marks (node : Node) : node.marks.getLast? = node.lastMark? := by
  cases node <;> simp [Node.marks, Node.lastMark?, List.getLast?_append, List.getLast?_cons]

theorem OpenBlock.marks_eq (block : OpenBlock) :
    ∃ before, block.marks = before ++ [block.lastMark] := by
  cases block with
  | branch span before condition =>
    rw [OpenBlock.marks, List.reverse_cons, marksOfBranches_append]
    refine ⟨marksOfBranches .ifThen before.reverse, ?_⟩
    cases before <;> simp [marksOfBranches, marksOf, OpenBlock.lastMark]
  | otherwise span branches => exact ⟨_, rfl⟩
  | loop span item collection => exact ⟨[], rfl⟩
  | loopElse span item collection body =>
    exact ⟨.forEach item collection :: marksOf body, by simp [OpenBlock.marks, OpenBlock.lastMark]⟩
  | definition span name parameters => exact ⟨[], rfl⟩

namespace Nesting

/-- The listing of what has been nested so far. -/
def marks (n : Nesting) : List Mark := marksOfOpened n.opened ++ marksOf n.nodes.reverse

/-- The guard for sub-templates stands only behind a definition. -/
def Seated : List Node → Prop
  | .dispatch :: nodes => ∃ name parameters body rest, nodes = .define name parameters body :: rest
  | _ => True

/-- The last mark is told by the last node, or by the innermost block where it holds no node yet. -/
theorem getLast?_marks {n : Nesting} (hn : Seated n.nodes) :
    n.marks.getLast? =
      match n.nodes, n.opened with
      | .dispatch :: _, _ => some .endDefine
      | node :: _, _ => node.lastMark?
      | [], (_, block) :: _ => some block.lastMark
      | [], [] => none := by
  obtain ⟨opened, nodes⟩ := n
  cases nodes with
  | nil =>
    cases opened with
    | nil => rfl
    | cons top opened =>
      obtain ⟨before, hb⟩ := top.2.marks_eq
      simp [marks, marksOfOpened, marksOf, hb]
  | cons node nodes =>
    -- the last node tells the last mark, unless it lists nothing
    have hm : (marks ⟨opened, node :: nodes⟩).getLast? =
        node.lastMark?.or (marks ⟨opened, nodes⟩).getLast? := by
      rw [marks, marks, marksOf_reverse_cons, ← List.append_assoc, List.getLast?_append,
        Node.getLast?_marks]
    rw [hm]
    cases node with
    | dispatch =>
      obtain ⟨name, parameters, body, rest, rfl⟩ := hn
      rw [marks, marksOf_reverse_cons, ← List.append_assoc, List.getLast?_append,
        Node.getLast?_marks]
      rfl
    | _ => rfl

/-- What the last mark tells about the nodes at hand, where a mark behind it may join it. -/
def Tells (n : Nesting) : Mark → Prop
  | .text _ => ∃ chars rest, n.nodes = .text chars :: rest
  | .otherwise => ∃ before span branches opened, n = ⟨(before, .otherwise span branches) :: opened, []⟩
  | .forEachElse => ∃ before span item collection body opened,
      n = ⟨(before, .loopElse span item collection body) :: opened, []⟩
  | _ => True

theorem tells_last {n : Nesting} (hn : Seated n.nodes) {last : Mark}
    (hlast : last ∈ n.marks.getLast?) : n.Tells last := by
  rw [getLast?_marks hn] at hlast
  obtain ⟨opened, nodes⟩ := n
  cases nodes with
  | nil =>
    rcases opened with - | ⟨⟨before, block⟩, opened⟩
    · cases hlast
    · obtain rfl : block.lastMark = last := Option.some.inj hlast
      cases block with
      | branch span branches condition => cases branches <;> trivial
      | otherwise span branches => exact ⟨_, _, _, _, rfl⟩
      | loopElse span item collection body => exact ⟨_, _, _, _, _, _, rfl⟩
      | loop | definition => trivial
  | cons node rest =>
    cases node with
    | text chars =>
      obtain rfl : .text chars.toList = last := Option.some.inj hlast
      exact ⟨chars, rest, rfl⟩
    | _ => cases hlast; trivial

theorem marks_add (n : Nesting) (node : Node) : (n.add node).marks = n.marks ++ node.marks := by
  simp [marks, add, marksOf]

theorem marks_openBlock (n : Nesting) (block : OpenBlock) :
    (n.openBlock block).marks = n.marks ++ block.marks := by
  simp [marks, openBlock, marksOf, marksOfOpened]

/-- A step from `n` to `next` puts `marks` behind what is listed. -/
structure Lists (n next : Nesting) (marks : List Mark) : Prop where
  marks_eq : next.marks.reverse = marks.foldl condenseStep n.marks.reverse
  seated : Seated next.nodes

variable {n next : Nesting} {mark : Mark}

/-- A mark behind the listing is listed as it is, if it does not join the last one. -/
theorem Lists.of_append (hn : Seated n.nodes) (hnext : Seated next.nodes)
    (h : next.marks = n.marks ++ [mark]) (hlast : ∀ last, n.Tells last → ¬ last.Joins mark)
    (hm : mark ≠ .text []) : Lists n next [mark] := by
  have hhead : ∀ last ∈ n.marks.reverse.head?, ¬ last.Joins mark := by
    intro last hmem
    rw [List.head?_reverse] at hmem
    exact hlast last (tells_last hn hmem)
  refine ⟨?_, hnext⟩
  rw [h, List.reverse_append]
  exact (condenseStep_eq_cons hm hhead).symm

/-- A mark that joins no other is listed as it is. -/
theorem Lists.of_fresh (hn : Seated n.nodes) (hnext : Seated next.nodes)
    (hm : mark.mayJoin = false) (h : next.marks = n.marks ++ [mark]) : Lists n next [mark] := by
  refine .of_append hn hnext h (fun last _ hjoins => ?_) ?_
  · rw [hjoins.mayJoin] at hm
    cases hm
  · rintro rfl
    cases hm

/-- The end of a block is listed as it is, unless it stands right behind a last branch. -/
theorem Lists.of_end (hn : Seated n.nodes) (hnext : Seated next.nodes)
    (h : next.marks = n.marks ++ [mark]) (hm : ∀ chars, mark ≠ .text chars)
    (hblock : ∀ before block opened, n = ⟨(before, block) :: opened, []⟩ →
      ¬ block.lastMark.Joins mark) : Lists n next [mark] := by
  refine .of_append hn hnext h (fun last htells hjoins => ?_) (hm [])
  cases last with
  | text chars =>
    cases mark with
    | text chars => exact hm chars rfl
    | _ => cases hjoins
  | otherwise =>
    obtain ⟨before, span, branches, opened, hn⟩ := htells
    exact hblock _ _ _ hn hjoins
  | forEachElse =>
    obtain ⟨before, span, item, collection, body, opened, hn⟩ := htells
    exact hblock _ _ _ hn hjoins
  | _ => cases mark <;> cases hjoins

theorem lists_addText (hn : Seated n.nodes) (text : List Char) :
    Lists n (n.addText text) [.text text] := by
  obtain ⟨opened, nodes⟩ := n
  fun_cases addText ⟨opened, nodes⟩ text with
  -- no text is no mark
  | case1 => exact ⟨by simp [condenseStep], hn⟩
  | case2 _ before rest h htext =>
    -- text goes on with the text before it
    obtain rfl : nodes = .text before :: rest := h
    refine ⟨?_, trivial⟩
    simp only [marks, marksOf_reverse_cons, Node.marks, List.reverse_append, String.toList_append,
      String.toList_ofList]
    rcases text with - | ⟨c, text⟩
    · exact absurd rfl htext
    · rfl
  | case3 _ htext hfirst =>
    refine .of_append hn trivial ?_ ?_ fun h => htext (Mark.text.inj h)
    · rw [marks_add, Node.marks, String.toList_ofList]
    · intro last htells hjoins
      cases last <;> cases hjoins
      obtain ⟨before, rest, rfl⟩ := htells
      exact hfirst before rest rfl

theorem lists_statement (hn : Seated n.nodes) (s : Statement) :
    Lists n (n.add (.ofStatement s)) [s.mark] := by
  cases s <;> exact .of_fresh hn trivial rfl (marks_add n _)

theorem lists_statements (hn : Seated n.nodes) (statements : List Statement) :
    Lists n (statements.foldl (fun n s => n.add (.ofStatement s)) n)
      (statements.map Statement.mark) := by
  induction statements generalizing n with
  | nil => exact ⟨rfl, hn⟩
  | cons s statements ih =>
    have hs := lists_statement hn s
    have hrest := ih hs.seated
    refine ⟨?_, hrest.seated⟩
    rw [List.foldl_cons, hrest.marks_eq, hs.marks_eq]
    rfl

/-- The last branch of a conditional that holds nothing leaves no mark when the conditional ends. -/
theorem lists_endIf {before : List Node} {span : Span} {branches : List Branch}
    {opened : List (List Node × OpenBlock)} {nodes : List Node} (hn : Seated nodes) :
    Lists ⟨(before, .otherwise span branches) :: opened, nodes⟩
      ⟨opened, .choose branches.reverse nodes.reverse :: before⟩ [.endIf] := by
  cases nodes with
  | nil =>
    refine ⟨?_, trivial⟩
    simp [marks, marksOfOpened, marksOf, Node.marks, OpenBlock.marks, condenseStep]
  | cons node rest =>
    refine .of_end hn trivial ?_ nofun nofun
    simp [marks, marksOfOpened, marksOf, Node.marks, OpenBlock.marks]

theorem lists_endForEach {before : List Node} {span : Span} {item : String} {collection : Expression}
    {body : List Node} {opened : List (List Node × OpenBlock)} {nodes : List Node}
    (hn : Seated nodes) :
    Lists ⟨(before, .loopElse span item collection body) :: opened, nodes⟩
      ⟨opened, .forEach item collection body nodes.reverse :: before⟩ [.endForEach] := by
  cases nodes with
  | nil =>
    refine ⟨?_, trivial⟩
    simp [marks, marksOfOpened, marksOf, Node.marks, OpenBlock.marks, condenseStep]
  | cons node rest =>
    refine .of_end hn trivial ?_ nofun nofun
    simp [marks, marksOfOpened, marksOf, Node.marks, OpenBlock.marks]

/-- A step lists its directive. -/
theorem lists_step {directive : Directive} {span : Span} {last : Bool}
    (hn : Seated n.nodes) (h : n.step directive span last = .ok next) :
    Lists n next (directive.marks span) := by
  cases directive with
  -- what opens no block, or opens one, adds its mark behind those that are listed
  | output | run =>
    cases h
    exact .of_fresh hn trivial rfl (marks_add n _)
  | ifThen | forEach | define =>
    cases h
    exact .of_fresh hn trivial rfl (marks_openBlock n _)
  | statements list =>
    cases h
    exact lists_statements hn list
  | forEachBreak =>
    simp only [step] at h
    split at h <;> cases h
    exact .of_fresh hn trivial rfl (marks_add n _)
  | elseIf condition =>
    obtain ⟨opened, nodes⟩ := n
    -- only a branch is left where the step does not fail
    rcases opened with - | ⟨⟨before, _ | _ | _ | _ | _⟩, opened⟩ <;> cases h
    refine .of_fresh hn trivial rfl ?_
    simp only [marks, marksOfOpened, OpenBlock.marks]
    rw [List.reverse_cons, marksOfBranches_append, marksOfBranches_reverse_cons]
    simp [marksOf, marksOfBranches]
  -- the branch that was open is put before the others, so the order of the marks stays
  | otherwise =>
    obtain ⟨opened, nodes⟩ := n
    rcases opened with - | ⟨⟨before, _ | _ | _ | _ | _⟩, opened⟩ <;> cases h
    refine .of_fresh hn trivial rfl ?_
    simp only [marks, marksOfOpened, OpenBlock.marks]
    rw [marksOfBranches_reverse_cons]
    simp [marksOf]
  -- the block is put into one node; only a block that could have joined its texts needs a lemma of its
  -- own
  | endIf =>
    obtain ⟨opened, nodes⟩ := n
    rcases opened with - | ⟨⟨before, _ | _ | _ | _ | _⟩, opened⟩ <;> cases h
    · refine .of_end hn trivial ?_ (fun chars hmark => by cases hmark) ?_
      · simp only [marks, marksOfOpened, OpenBlock.marks, marksOf_reverse_cons, Node.marks]
        rw [marksOfBranches_reverse_cons]
        simp
      · rintro _ _ _ ⟨⟩ hjoins
        rename List Branch => branches
        cases branches <;> cases hjoins
    · exact lists_endIf hn
  | forEachElse =>
    obtain ⟨opened, nodes⟩ := n
    rcases opened with - | ⟨⟨before, _ | _ | _ | _ | _⟩, opened⟩ <;> cases h
    refine .of_fresh hn trivial rfl ?_
    simp [marks, marksOfOpened, marksOf, OpenBlock.marks]
  | endForEach =>
    obtain ⟨opened, nodes⟩ := n
    rcases opened with - | ⟨⟨before, _ | _ | _ | _ | _⟩, opened⟩ <;> cases h
    · refine .of_end hn trivial ?_ (fun chars hmark => by cases hmark) ?_
      · simp [marks, marksOfOpened, marksOf, OpenBlock.marks, Node.marks]
      · rintro _ _ _ ⟨⟩ hjoins
        cases hjoins
    · exact lists_endForEach hn
  -- the guard stands behind the last definition, and adds its own mark there
  | endDefine =>
    obtain ⟨opened, nodes⟩ := n
    rcases opened with - | ⟨⟨before, _ | _ | _ | _ | _⟩, opened⟩ <;> cases h
    cases last with
    | false =>
      refine .of_fresh hn trivial rfl ?_
      simp [marks, marksOfOpened, marksOf, OpenBlock.marks, Node.marks]
    | true =>
      refine .of_fresh hn ⟨_, _, _, _, rfl⟩ rfl ?_
      simp [marks, marksOfOpened, marksOf, OpenBlock.marks, Node.marks]

/-- Reading a row to its end lists the row behind what is listed. -/
theorem readAll_marks {items : List Item} {nodes : List Node} (hn : Seated n.nodes)
    (h : n.readAll items = .ok nodes) :
    (marksOf nodes).reverse = (items.flatMap Item.marks).foldl condenseStep n.marks.reverse := by
  induction items generalizing n with
  | nil =>
    obtain ⟨opened, held⟩ := n
    rcases opened with - | ⟨⟨before, block⟩, opened⟩
    · obtain rfl : held.reverse = nodes := Except.ok.inj h
      rfl
    · cases h
  | cons item items ih =>
    rw [List.flatMap_cons, List.foldl_append]
    cases item with
    | text text =>
      have hstep := lists_addText hn text
      rw [ih hstep.seated h, hstep.marks_eq]
      rfl
    | directive directive span =>
      rw [readAll] at h
      -- the step and the rest of the row are listed one behind the other
      rcases hs : n.step directive span (!items.any Item.endsDefinition) with fault | next
      · rw [hs] at h
        cases h
      · rw [hs] at h
        have hstep := lists_step hn hs
        rw [ih hstep.seated h, hstep.marks_eq]
        rfl

end Nesting

/-- The tree of a row lists the row, condensed. -/
theorem marksOf_nest {items : List Item} {nodes : List Node} (h : nest items = .ok nodes) :
    marksOf nodes = condense (items.flatMap Item.marks) := by
  have hn : Nesting.Seated Nesting.start.nodes := trivial
  rw [condense, ← List.reverse_inj, List.reverse_reverse]
  exact Nesting.readAll_marks hn h

/-- A row has a tree exactly if it is balanced. -/
theorem nest_isOk (items : List Item) : (nest items).isOk = true ↔ Derives (.block false) items := by
  rw [nest, Nesting.readAll_isOk]
  exact accepts_iff_derives

/-- Segments whose directives all classify have a tree exactly if their row is balanced, and the tree
lists the row: statements one by one, text next to text as one text, without empty text and without a
last branch that holds nothing. -/
theorem nodesOfSegments_balanced (parts : List Segment) (items : List Item)
    (h : parts.mapM Item.ofSegment = .ok items) :
    ((∃ nodes, nodesOfSegments parts = .ok nodes) ↔ Derives (.block false) items) ∧
      ∀ nodes, nodesOfSegments parts = .ok nodes → marksOf nodes = condense (items.flatMap Item.marks) := by
  have hparts : nodesOfSegments parts = nest items := by
    rw [nodesOfSegments, h]
    rfl
  rw [hparts]
  refine ⟨?_, fun nodes => marksOf_nest⟩
  rw [← nest_isOk]
  constructor
  · rintro ⟨nodes, hnodes⟩
    rw [hnodes]
    rfl
  · intro hok
    rcases hnest : nest items with fault | nodes
    · rw [hnest] at hok
      cases hok
    · exact ⟨nodes, rfl⟩

/-- A conditional whose last branch holds nothing. -/
theorem nodesOfSegments_balanced_choose :
    ∃ nodes, nodesOfSegments [.directive ⟨2, "if (a)".toList⟩, .literal ⟨10, ['x']⟩,
        .directive ⟨13, "else".toList⟩, .directive ⟨19, "/if".toList⟩] = .ok nodes ∧
      marksOf nodes = [.ifThen (.identifier ⟨6, 7⟩ "a"), .text ['x'], .endIf] := by
  have h := nodesOfSegments_balanced [.directive ⟨2, "if (a)".toList⟩, .literal ⟨10, ['x']⟩,
      .directive ⟨13, "else".toList⟩, .directive ⟨19, "/if".toList⟩]
    [.directive (.ifThen (.identifier ⟨6, 7⟩ "a")) ⟨2, 8⟩, .text ['x'],
      .directive .otherwise ⟨13, 17⟩, .directive .endIf ⟨19, 22⟩] rfl
  have hbody : Derives (.block false) [.text ['x']] := .plain rfl .nil
  have htail : Derives (.branches false)
      [.directive .otherwise ⟨13, 17⟩, .directive .endIf ⟨19, 22⟩] := .otherwise .nil
  obtain ⟨nodes, hnodes⟩ := h.1.mpr (.choose hbody htail .nil)
  exact ⟨nodes, hnodes, h.2 nodes hnodes⟩

/-- What compiling comes to: the delimiters are not empty, the source can be cut into segments, and their
tree is the template's. -/
theorem Template.compile_eq_ok {source : String} {c : Configuration} {t : Template}
    (h : Template.compile source c = .ok t) :
    ∃ delimiters parts, c.delimiters = .ok delimiters ∧
      segments delimiters source.toList = .ok parts ∧ nodesOfSegments parts = .ok t.nodes ∧
      t.escapeDefault = c.escapeDefault ∧ t.pageProtocol = c.pageProtocol := by
  rw [Template.compile] at h
  rcases hdelimiters : c.delimiters with fault | delimiters
  · rw [hdelimiters] at h
    cases h
  rw [hdelimiters] at h
  change (segments delimiters source.toList >>= _) = _ at h
  rcases hparts : segments delimiters source.toList with fault | parts
  · rw [hparts] at h
    cases h
  rw [hparts] at h
  change (nodesOfSegments parts >>= _) = _ at h
  rcases hnodes : nodesOfSegments parts with fault | nodes
  · rw [hnodes] at h
    cases h
  rw [hnodes] at h
  cases h
  exact ⟨delimiters, parts, rfl, hparts, hnodes, rfl, rfl⟩

end Stencil
