/-
Stencil/Node/Nesting.lean

From the row of directives to the tree of nodes.  The directives are taken one by
one; the blocks that are open are held as a stack, innermost first, each with the
nodes that stand before it.  A directive that closes or splits a block must fit the
innermost one.

The guard for sub-templates is placed behind the definition that the last closing
directive of a definition closes.  As blocks are nested properly, that definition
stands inside no other.
-/
import Stencil.Node
import Stencil.Fault

namespace Stencil

/-- A piece of a template, its directive classified. -/
inductive Item where
  | text (text : List Char)
  | directive (directive : Directive) (span : Span)

/-- The piece closes a definition. -/
def Item.endsDefinition : Item → Bool
  | .directive .endDefine _ => true
  | _ => false

/-- A block that is open, with the place of the directive that opened it. -/
inductive OpenBlock where
  /-- The branch of `condition`; the ones before it are held last first. -/
  | branch (span : Span) (before : List Branch) (condition : Expression)
  /-- What is left when no branch applies; the branches are held last first. -/
  | otherwise (span : Span) (branches : List Branch)
  | loop (span : Span) (item : String) (collection : Expression)
  /-- What is rendered when there is nothing to loop over. -/
  | loopElse (span : Span) (item : String) (collection : Expression) (body : List Node)
  | definition (span : Span) (name : String) (parameters : List String)

namespace OpenBlock

/-- The fault of a block that nothing closes. -/
def neverClosed : OpenBlock → CompileFault
  | .branch span .. | .otherwise span .. => .malformed (.neverClosed .ifWord) span
  | .loop span .. | .loopElse span .. => .malformed (.neverClosed .forEachWord) span
  | .definition span .. => .malformed (.neverClosed .defineWord) span

/-- A loop item or the body of a sub-template may be left early. -/
def breakable : OpenBlock → Bool
  | .loop .. | .loopElse .. | .definition .. => true
  | .branch .. | .otherwise .. => false

end OpenBlock

/-- What has been nested so far. -/
structure Nesting where
  /-- The open blocks, innermost first, each with the nodes that stand before it, last first. -/
  opened : List (List Node × OpenBlock)
  /-- The nodes of the innermost block, last first. -/
  nodes : List Node

namespace Nesting

/-- Nothing has been read. -/
def start : Nesting := ⟨[], []⟩

/-- Puts a node behind the others. -/
def add (n : Nesting) (node : Node) : Nesting := { n with nodes := node :: n.nodes }

/-- Puts text behind the nodes: text next to text becomes one node, and no text none. -/
def addText (n : Nesting) (text : List Char) : Nesting :=
  match text, n.nodes with
  | [], _ => n
  | _, .text before :: nodes => { n with nodes := .text (before ++ String.ofList text) :: nodes }
  | _, _ => n.add (.text (String.ofList text))

/-- Opens a block behind the nodes. -/
def openBlock (n : Nesting) (block : OpenBlock) : Nesting :=
  { opened := (n.nodes, block) :: n.opened, nodes := [] }

/-- The fault of a directive that does not fit the innermost block. -/
def unexpected {α : Type} (word : DirectiveWord) (span : Span) : Except CompileFault α :=
  .error (.malformed (.unexpected word) span)

/-- Takes the next directive; `last` if no directive behind it closes a definition. -/
def step (n : Nesting) (directive : Directive) (span : Span) (last : Bool) :
    Except CompileFault Nesting :=
  let nodes := n.nodes.reverse
  match directive with
  | .output form value => .ok (n.add (.output form value))
  | .statements statements => .ok (statements.foldl (fun n s => n.add (.ofStatement s)) n)
  | .run name arguments => .ok (n.add (.run name arguments span))
  | .forEachBreak =>
    if n.opened.any fun (_, block) => block.breakable then .ok (n.add .leave)
    else .error (.malformed .strayBreak span)
  | .ifThen condition => .ok (n.openBlock (.branch span [] condition))
  | .forEach item collection => .ok (n.openBlock (.loop span item collection))
  | .define name parameters => .ok (n.openBlock (.definition span name parameters))
  | .elseIf condition =>
    match n.opened with
    | (before, .branch opener branches current) :: opened =>
      .ok ⟨(before, .branch opener (.mk current nodes :: branches) condition) :: opened, []⟩
    | _ => unexpected .elseIfWord span
  | .otherwise =>
    match n.opened with
    | (before, .branch opener branches current) :: opened =>
      .ok ⟨(before, .otherwise opener (.mk current nodes :: branches)) :: opened, []⟩
    | _ => unexpected .elseWord span
  | .endIf =>
    match n.opened with
    | (before, .branch _ branches current) :: opened =>
      .ok ⟨opened, .choose (.mk current nodes :: branches).reverse [] :: before⟩
    | (before, .otherwise _ branches) :: opened =>
      .ok ⟨opened, .choose branches.reverse nodes :: before⟩
    | _ => unexpected .endIf span
  | .forEachElse =>
    match n.opened with
    | (before, .loop opener item collection) :: opened =>
      .ok ⟨(before, .loopElse opener item collection nodes) :: opened, []⟩
    | _ => unexpected .forEachElse span
  | .endForEach =>
    match n.opened with
    | (before, .loop _ item collection) :: opened =>
      .ok ⟨opened, .forEach item collection nodes [] :: before⟩
    | (before, .loopElse _ item collection body) :: opened =>
      .ok ⟨opened, .forEach item collection body nodes :: before⟩
    | _ => unexpected .endForEach span
  | .endDefine =>
    match n.opened with
    | (before, .definition _ name parameters) :: opened =>
      let defined := .define name parameters nodes :: before
      .ok ⟨opened, if last then .dispatch :: defined else defined⟩
    | _ => unexpected .endDefine span

/-- The nodes, if no block is open. -/
def close (n : Nesting) : Except CompileFault (List Node) :=
  match n.opened with
  | [] => .ok n.nodes.reverse
  | (_, block) :: _ => .error block.neverClosed

/-- Takes the pieces in order. -/
def readAll (n : Nesting) : List Item → Except CompileFault (List Node)
  | [] => n.close
  | .text text :: rest => (n.addText text).readAll rest
  | .directive directive span :: rest => do
    let next ← n.step directive span (!rest.any Item.endsDefinition)
    next.readAll rest

end Nesting

/-- The tree of a row of pieces. -/
def nest (items : List Item) : Except CompileFault (List Node) := Nesting.start.readAll items

end Stencil
