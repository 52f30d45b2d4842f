/-
Stencil/Render.lean

Rendering: walking the nodes of a template over a scope.  What a node writes is
appended to the output; how it ends says whether the nodes behind it come next.

Sub-templates run one another at most `maxDepth` deep.  The walk does not know how
a sub-template is run: it is handed a `Runner`, and `runSubtemplate` ties the two
together by recursion on how many runs may still be nested.
-/
import Stencil.Evaluate
import Stencil.Output
import Stencil.Template
import Stencil.Value.Entries

namespace Stencil

/-- How deep sub-templates may run one another. -/
def maxDepth : Nat := 128

/-- How nodes ended. -/
inductive Flow where
  /-- The nodes behind come next. -/
  | next
  /-- The item of the loop is done and no other follows, or the sub-template is done. -/
  | leave
  /-- The one sub-template that was asked for has been rendered. -/
  | finish
deriving DecidableEq, Repr

/-- A sub-template that has been met, with the frames that lay over the root there. -/
structure Subtemplate where
  parameters : List String
  body : List Node
  captured : List Frame

/-- The frame of a run: the parameters with the arguments, undefined where one is not given. -/
def Subtemplate.frame (s : Subtemplate) (arguments : List Value) : Frame :=
  (s.parameters.zipIdx.map fun (name, i) => (name, argumentAt arguments i)).reverse

/-- The frame of an item of a loop: its name, and its position or key under that name and `Index`. -/
def loopFrame (item : String) (key value : Value) : Frame :=
  [(item, value), (item ++ "Index", key)]

/-- The state of a render. -/
structure Page where
  memory : Memory
  /-- The sub-templates that have been met. -/
  registry : Bindings Subtemplate := []
  output : String := ""

/-- A part of a render. -/
abbrev Rendering := EStateM RenderFault Page

/-- What stays the same during a render. -/
structure Settings extends Services where
  /-- Whether the default output form escapes. -/
  escapeDefault : Bool
  /-- The one sub-template that was asked for, and its argument. -/
  asked : Option (String × Value)

/-- How a sub-template is run: by its name, with arguments, from a place in the source. -/
abbrev Runner := (name : String) → (arguments : List Value) → Span → Rendering Unit

namespace Rendering

/-- An evaluation as a part of a render: it sees and changes nothing but the memory. -/
def evaluating {α : Type} (evaluation : Evaluation α) : Rendering α := fun page =>
  match evaluation page.memory with
  | .ok a memory => .ok a { page with memory }
  | .error fault memory => .error fault { page with memory }

/-- Changes the scope. -/
def changeScope (change : Scope → Scope) : Rendering Unit :=
  modify fun page => { page with memory.scope := change page.memory.scope }

/-- Appends to the output. -/
def write (text : String) : Rendering Unit :=
  modify fun page => { page with output := page.output ++ text }

/-- Throws the output away. -/
def clear : Rendering Unit := modify fun page => { page with output := "" }

/-- Registers a sub-template under its name, in place of an older one. -/
def register (name : String) (parameters : List String) (body : List Node) : Rendering Unit :=
  modify fun page =>
    let captured := page.memory.scope.frames
    { page with registry := page.registry.put name { parameters, body, captured } }

/-- Renders under another frame, which is taken away afterwards, also where a fault stops the render. -/
def inFrame {α : Type} (frame : Frame) (body : Rendering α) : Rendering α := fun page =>
  let pop (page : Page) : Page := { page with memory.scope := page.memory.scope.pop }
  match body { page with memory.scope := page.memory.scope.push frame } with
  | .ok a page => .ok a (pop page)
  | .error fault page => .error fault (pop page)

/-- Renders under other frames than those at hand, which come back afterwards, also where a fault stops
the render. -/
def underFrames {α : Type} (frames : List Frame) (body : Rendering α) : Rendering α := fun page =>
  let outer := page.memory.scope.frames
  let restore (page : Page) : Page := { page with memory.scope.frames := outer }
  match body { page with memory.scope.frames := frames } with
  | .ok a page => .ok a (restore page)
  | .error fault page => .error fault (restore page)

end Rendering

open Rendering

mutual

/-- Renders a node. -/
def renderNode (settings : Settings) (run : Runner) : Node → Rendering Flow
  | .text text => do
    write text
    return .next
  | .output form value => do
    let v ← evaluating (evaluateGuarded settings.toServices value)
    if !v.isNullish then
      write (String.ofList (form.write settings.escapeDefault settings.pageProtocol v))
    return .next
  | .declare name value => do
    let v ← match value with
      | some e => evaluating (evaluate settings.toServices e)
      | none => pure .undefined
    changeScope (·.declare name v)
    return .next
  | .evaluate e => do
    let _ ← evaluating (evaluate settings.toServices e)
    return .next
  | .choose branches otherwise =>
    renderBranches settings run branches (renderNodes settings run otherwise)
  | .forEach item collection body otherwise => do
    let v ← evaluating (evaluateGuarded settings.toServices collection)
    if v.entries.isEmpty then
      let _ ← inFrame [] (renderNodes settings run otherwise)
      return .next
    else
      let _ ← visitEntries (m := Rendering) (β := Unit) (fun key value => do
        match ← inFrame (loopFrame item key value) (renderNodes settings run body) with
        | .leave => return some ()
        | _ => return none) v.entries
      return .next
  | .leave => return .leave
  | .define name parameters body => do
    register name parameters body
    return .next
  | .run name arguments span => do
    if ((← get).registry.lookup name).isSome then
      run name (← evaluating (evaluateAll settings.toServices arguments)) span
    return .next
  | .dispatch => do
    match settings.asked with
    | some (name, context) =>
      clear
      run name [context] (Span.at 0)
      return .finish
    | none => return .next

/-- Renders nodes up to the first that does not let the next one come. -/
def renderNodes (settings : Settings) (run : Runner) : List Node → Rendering Flow
  | [] => return .next
  | node :: nodes => do
    match ← renderNode settings run node with
    | .next => renderNodes settings run nodes
    | flow => return flow

/-- Renders the first branch whose condition holds, or `otherwise` if none does. -/
def renderBranches (settings : Settings) (run : Runner) :
    List Branch → (otherwise : Rendering Flow) → Rendering Flow
  | [], otherwise => otherwise
  | .mk condition body :: branches, otherwise => do
    if (← evaluating (evaluate settings.toServices condition)).isTruthy then
      renderNodes settings run body
    else renderBranches settings run branches otherwise

end

/-- Runs a sub-template where `remaining` runs may still be nested.  A name that is not registered
stands for an empty one. -/
def runSubtemplate (settings : Settings) : (remaining : Nat) → Runner
  | remaining, name, arguments, span => do
    match (← get).registry.lookup name with
    | none => return
    | some subtemplate =>
      match remaining with
      | 0 => throw (.callDepth name maxDepth span)
      | remaining + 1 =>
        let _ ← underFrames (subtemplate.frame arguments :: subtemplate.captured)
          (renderNodes settings (runSubtemplate settings remaining) subtemplate.body)

/-- The names that a context binds when the whole template is rendered: the keys of an object, the
positions of an array, and `value` for anything else. -/
def rootBindings : Value → Bindings Value
  | .object _ entries => entries
  | .array _ items => items.zipIdx.map fun (item, i) => (toString i, item)
  | v => [("value", v)]

/-- The output of a list of nodes for a context.  A key that is not empty asks for the sub-template of
that name, which gets the context as its argument. -/
def renderAll (services : Services) (escapeDefault : Bool) (nodes : List Node) (context : Value)
    (key : String) : Except RenderFault String :=
  let asked := if key.isEmpty then none else some (key, context)
  let root := if key.isEmpty then rootBindings context else [("value", context)]
  let settings : Settings := { services with escapeDefault, asked }
  let page : Page := { memory := { scope := { root } } }
  match renderNodes settings (runSubtemplate settings maxDepth) nodes page with
  | .ok _ page => .ok page.output
  | .error fault _ => .error fault

/-- The output of a template for a context. -/
def Template.render (host : Host) (t : Template) (context : Value) (key : String := "") :
    Except RenderFault String :=
  renderAll { host, pageProtocol := t.pageProtocol } t.escapeDefault t.nodes context key

end Stencil
