/-
Stencil/Proofs/Course.lean

The course of a render, told by rules.  `Renders settings job p r` says that what is
to be done from the point `p` on ends with `r`.  A point counts how many bodies of
sub-templates are being rendered: a call adds one and takes it away again when the body
has ended, in whichever way, and where `maxDepth` bodies are being rendered a call is a
fault.  Nothing bounds the rules from outside, so a render ends if a derivation exists.

* `renders_iff` — every job has exactly one outcome, the one that the renderer
  computes with as many runs left as the point allows, and the count is then what it
  was before;
* `Comes settings goal met job p` — on its course, the job comes to do `goal` at the
  point `met`;
* `Comes.fails` — a fault there is a fault of the whole.
-/
import Stencil.Render

namespace Stencil

open Rendering

/-! ### Points and outcomes -/

/-- Where a render stands: the page, and how many bodies of sub-templates are being rendered. -/
structure Point where
  page : Page
  depth : Nat

namespace Point

/-- The names that are bound. -/
abbrev scope (p : Point) : Scope := p.page.memory.scope

/-- The point after a frame was laid over the others. -/
def push (frame : Frame) (p : Point) : Point :=
  { p with page.memory.scope := p.page.memory.scope.push frame }

/-- The point after the innermost frame was taken away. -/
def pop (p : Point) : Point := { p with page.memory.scope := p.page.memory.scope.pop }

/-- The point after the output was thrown away. -/
def cleared (p : Point) : Point := { p with page.output := "" }

/-- The point where the body of a sub-template begins. -/
def enter (frames : List Frame) (p : Point) : Point :=
  ⟨{ p.page with memory.scope.frames := frames }, p.depth + 1⟩

/-- The point behind a sub-template that was run under the frames `outer`. -/
def back (outer : List Frame) (p : Point) : Point :=
  ⟨{ p.page with memory.scope.frames := outer }, p.depth - 1⟩

@[simp] theorem enter_depth (frames : List Frame) (p : Point) :
    (p.enter frames).depth = p.depth + 1 := rfl

/-- What a part of a render comes to from a point on. -/
def after {α : Type} (p : Point) (m : Rendering α) : EStateM.Result RenderFault Point α :=
  match m p.page with
  | .ok a page => .ok a { p with page }
  | .error fault page => .error fault { p with page }

/-- How sub-templates are run from a point on. -/
def runner (settings : Settings) (p : Point) : Runner := runSubtemplate settings (maxDepth - p.depth)

end Point

/-- Renders nodes where `depth` bodies of sub-templates are being rendered. -/
def renderAt (settings : Settings) (depth : Nat) (nodes : List Node) : Rendering Flow :=
  renderNodes settings (runSubtemplate settings (maxDepth - depth)) nodes

/-- How what is to be done ends, and where. -/
abbrev Outcome := EStateM.Result RenderFault Point Flow

namespace Outcome

/-- Where it ends. -/
def point : Outcome → Point
  | .ok _ p => p
  | .error _ p => p

/-- The same with `flow` for the way in which nodes ended, at the point that `back` leads to. -/
def ending (flow : Flow) (back : Point → Point) : Outcome → Outcome
  | .ok _ p => .ok flow (back p)
  | .error fault p => .error fault (back p)

end Outcome

/-! ### Jobs -/

/-- What is to be done. -/
inductive Job where
  | node (node : Node)
  | nodes (nodes : List Node)
  /-- The first branch whose condition holds, or what is left if none does. -/
  | branches (branches : List Branch) (otherwise : List Node)
  /-- The rounds of a loop that are left. -/
  | items (item : String) (body : List Node) (entries : List (Value × Value))
  | call (name : String) (arguments : List Value) (span : Span)

/-- The node renders no others. -/
def Node.isSimple : Node → Bool
  | .text _ | .output .. | .declare .. | .evaluate _ | .leave | .define .. => true
  | .choose .. | .forEach .. | .run .. | .dispatch => false

/-- How the renderer does a job. -/
def Job.perform (settings : Settings) (run : Runner) : Job → Rendering Flow
  | .node n => renderNode settings run n
  | .nodes ns => renderNodes settings run ns
  | .branches bs otherwise => renderBranches settings run bs (renderNodes settings run otherwise)
  | .items item body entries => do
    let _ ← visitEntries (m := Rendering) (β := Unit) (fun key value => do
      match ← inFrame (loopFrame item key value) (renderNodes settings run body) with
      | .leave => return some ()
      | _ => return none) entries
    return .next
  | .call name arguments span => do
    run name arguments span
    return .next

/-! ### The rules -/

/-- What is to be done from a point on ends with an outcome. -/
inductive Renders (settings : Settings) : Job → Point → Outcome → Prop
  /-- A node that renders no others does not depend on how sub-templates are run. -/
  | simple {node : Node} {p : Point} (run : Runner) :
      node.isSimple = true → Renders settings (.node node) p (p.after (renderNode settings run node))
  | nil {p : Point} : Renders settings (.nodes []) p (.ok .next p)
  | cons {node : Node} {nodes : List Node} {p q : Point} {r : Outcome} :
      Renders settings (.node node) p (.ok .next q) → Renders settings (.nodes nodes) q r →
      Renders settings (.nodes (node :: nodes)) p r
  /-- The node does not let the next one come. -/
  | stop {node : Node} {nodes : List Node} {p : Point} {r : Outcome} :
      Renders settings (.node node) p r → (∀ q, r ≠ .ok .next q) →
      Renders settings (.nodes (node :: nodes)) p r
  | choose {branches : List Branch} {otherwise : List Node} {p : Point} {r : Outcome} :
      Renders settings (.branches branches otherwise) p r →
      Renders settings (.node (.choose branches otherwise)) p r
  | otherwise {otherwise : List Node} {p : Point} {r : Outcome} :
      Renders settings (.nodes otherwise) p r → Renders settings (.branches [] otherwise) p r
  | conditionFails {condition : Expression} {body otherwise : List Node} {branches : List Branch}
      {p q : Point} {fault : RenderFault} :
      p.after (evaluating (evaluate settings.toServices condition)) = .error fault q →
      Renders settings (.branches (.mk condition body :: branches) otherwise) p (.error fault q)
  | holds {condition : Expression} {body otherwise : List Node} {branches : List Branch}
      {p q : Point} {v : Value} {r : Outcome} :
      p.after (evaluating (evaluate settings.toServices condition)) = .ok v q → v.isTruthy = true →
      Renders settings (.nodes body) q r →
      Renders settings (.branches (.mk condition body :: branches) otherwise) p r
  | passes {condition : Expression} {body otherwise : List Node} {branches : List Branch}
      {p q : Point} {v : Value} {r : Outcome} :
      p.after (evaluating (evaluate settings.toServices condition)) = .ok v q → v.isTruthy = false →
      Renders settings (.branches branches otherwise) q r →
      Renders settings (.branches (.mk condition body :: branches) otherwise) p r
  | collectionFails {item : String} {collection : Expression} {body otherwise : List Node}
      {p q : Point} {fault : RenderFault} :
      p.after (evaluating (evaluateGuarded settings.toServices collection)) = .error fault q →
      Renders settings (.node (.forEach item collection body otherwise)) p (.error fault q)
  | noItems {item : String} {collection : Expression} {body otherwise : List Node}
      {p q : Point} {v : Value} {r : Outcome} :
      p.after (evaluating (evaluateGuarded settings.toServices collection)) = .ok v q →
      v.entries = [] → Renders settings (.nodes otherwise) (q.push []) r →
      Renders settings (.node (.forEach item collection body otherwise)) p (r.ending .next Point.pop)
  | items {item : String} {collection : Expression} {body otherwise : List Node}
      {p q : Point} {v : Value} {r : Outcome} :
      p.after (evaluating (evaluateGuarded settings.toServices collection)) = .ok v q →
      v.entries ≠ [] → Renders settings (.items item body v.entries) q r →
      Renders settings (.node (.forEach item collection body otherwise)) p r
  | done {item : String} {body : List Node} {p : Point} :
      Renders settings (.items item body []) p (.ok .next p)
  | item {item : String} {body : List Node} {key value : Value} {entries : List (Value × Value)}
      {p q : Point} {flow : Flow} {r : Outcome} :
      Renders settings (.nodes body) (p.push (loopFrame item key value)) (.ok flow q) →
      flow ≠ .leave → Renders settings (.items item body entries) q.pop r →
      Renders settings (.items item body ((key, value) :: entries)) p r
  /-- The loop is left, or a fault stops the render. -/
  | lastItem {item : String} {body : List Node} {key value : Value} {entries : List (Value × Value)}
      {p : Point} {r : Outcome} :
      Renders settings (.nodes body) (p.push (loopFrame item key value)) r →
      (∀ flow q, r = .ok flow q → flow = .leave) →
      Renders settings (.items item body ((key, value) :: entries)) p (r.ending .next Point.pop)
  | unknown {name : String} {arguments : List Expression} {span : Span} {p : Point} :
      p.page.registry.lookup name = none →
      Renders settings (.node (.run name arguments span)) p (.ok .next p)
  | argumentFails {name : String} {arguments : List Expression} {span : Span} {p q : Point}
      {s : Subtemplate} {fault : RenderFault} :
      p.page.registry.lookup name = some s →
      p.after (evaluating (evaluateAll settings.toServices arguments)) = .error fault q →
      Renders settings (.node (.run name arguments span)) p (.error fault q)
  | run {name : String} {arguments : List Expression} {span : Span} {p q : Point}
      {s : Subtemplate} {values : List Value} {r : Outcome} :
      p.page.registry.lookup name = some s →
      p.after (evaluating (evaluateAll settings.toServices arguments)) = .ok values q →
      Renders settings (.call name values span) q r →
      Renders settings (.node (.run name arguments span)) p r
  | notAsked {p : Point} :
      settings.asked = none → Renders settings (.node .dispatch) p (.ok .next p)
  | asked {name : String} {context : Value} {p : Point} {r : Outcome} :
      settings.asked = some (name, context) →
      Renders settings (.call name [context] (.at 0)) p.cleared r →
      Renders settings (.node .dispatch) p (r.ending .finish id)
  | nothing {name : String} {arguments : List Value} {span : Span} {p : Point} :
      p.page.registry.lookup name = none →
      Renders settings (.call name arguments span) p (.ok .next p)
  | tooDeep {name : String} {arguments : List Value} {span : Span} {p : Point} {s : Subtemplate} :
      p.page.registry.lookup name = some s → maxDepth ≤ p.depth →
      Renders settings (.call name arguments span) p (.error (.callDepth name maxDepth span) p)
  | call {name : String} {arguments : List Value} {span : Span} {p : Point} {s : Subtemplate}
      {r : Outcome} :
      p.page.registry.lookup name = some s → p.depth < maxDepth →
      Renders settings (.nodes s.body) (p.enter (s.frame arguments :: s.captured)) r →
      Renders settings (.call name arguments span) p (r.ending .next (Point.back p.scope.frames))

/-! ### What a job comes to -/

/-- On its course, what is to be done from a point on comes to do `goal` at the point `met`. -/
inductive Comes (settings : Settings) (goal : Job) (met : Point) : Job → Point → Prop
  | here : Comes settings goal met goal met
  | node {node : Node} {nodes : List Node} {p : Point} :
      Comes settings goal met (.node node) p → Comes settings goal met (.nodes (node :: nodes)) p
  | later {node : Node} {nodes : List Node} {p q : Point} :
      Renders settings (.node node) p (.ok .next q) → Comes settings goal met (.nodes nodes) q →
      Comes settings goal met (.nodes (node :: nodes)) p
  | choose {branches : List Branch} {otherwise : List Node} {p : Point} :
      Comes settings goal met (.branches branches otherwise) p →
      Comes settings goal met (.node (.choose branches otherwise)) p
  | otherwise {otherwise : List Node} {p : Point} :
      Comes settings goal met (.nodes otherwise) p →
      Comes settings goal met (.branches [] otherwise) p
  | holds {condition : Expression} {body otherwise : List Node} {branches : List Branch}
      {p q : Point} {v : Value} :
      p.after (evaluating (evaluate settings.toServices condition)) = .ok v q → v.isTruthy = true →
      Comes settings goal met (.nodes body) q →
      Comes settings goal met (.branches (.mk condition body :: branches) otherwise) p
  | passes {condition : Expression} {body otherwise : List Node} {branches : List Branch}
      {p q : Point} {v : Value} :
      p.after (evaluating (evaluate settings.toServices condition)) = .ok v q → v.isTruthy = false →
      Comes settings goal met (.branches branches otherwise) q →
      Comes settings goal met (.branches (.mk condition body :: branches) otherwise) p
  | noItems {item : String} {collection : Expression} {body otherwise : List Node} {p q : Point}
      {v : Value} :
      p.after (evaluating (evaluateGuarded settings.toServices collection)) = .ok v q →
      v.entries = [] → Comes settings goal met (.nodes otherwise) (q.push []) →
      Comes settings goal met (.node (.forEach item collection body otherwise)) p
  | items {item : String} {collection : Expression} {body otherwise : List Node} {p q : Point}
      {v : Value} :
      p.after (evaluating (evaluateGuarded settings.toServices collection)) = .ok v q →
      v.entries ≠ [] → Comes settings goal met (.items item body v.entries) q →
      Comes settings goal met (.node (.forEach item collection body otherwise)) p
  | item {item : String} {body : List Node} {key value : Value} {entries : List (Value × Value)}
      {p : Point} :
      Comes settings goal met (.nodes body) (p.push (loopFrame item key value)) →
      Comes settings goal met (.items item body ((key, value) :: entries)) p
  | laterItem {item : String} {body : List Node} {key value : Value}
      {entries : List (Value × Value)} {p q : Point} {flow : Flow} :
      Renders settings (.nodes body) (p.push (loopFrame item key value)) (.ok flow q) →
      flow ≠ .leave → Comes settings goal met (.items item body entries) q.pop →
      Comes settings goal met (.items item body ((key, value) :: entries)) p
  | run {name : String} {arguments : List Expression} {span : Span} {p q : Point}
      {s : Subtemplate} {values : List Value} :
      p.page.registry.lookup name = some s →
      p.after (evaluating (evaluateAll settings.toServices arguments)) = .ok values q →
      Comes settings goal met (.call name values span) q →
      Comes settings goal met (.node (.run name arguments span)) p
  | asked {name : String} {context : Value} {p : Point} :
      settings.asked = some (name, context) →
      Comes settings goal met (.call name [context] (.at 0)) p.cleared →
      Comes settings goal met (.node .dispatch) p
  | call {name : String} {arguments : List Value} {span : Span} {p : Point} {s : Subtemplate} :
      p.page.registry.lookup name = some s → p.depth < maxDepth →
      Comes settings goal met (.nodes s.body) (p.enter (s.frame arguments :: s.captured)) →
      Comes settings goal met (.call name arguments span) p

/-- A fault that a job comes to is one that it ends with. -/
theorem Comes.fails {settings : Settings} {goal job : Job} {met left p : Point} {fault : RenderFault}
    (h : Comes settings goal met job p) (hgoal : Renders settings goal met (.error fault left)) :
    ∃ q, Renders settings job p (.error fault q) := by
  -- by induction on the way to the goal: what fails ends every part around it, in a round of a loop as
  -- well
  induction h with
  | here => exact ⟨left, hgoal⟩
  | node _ ih =>
    obtain ⟨q, hq⟩ := ih
    exact ⟨q, .stop hq nofun⟩
  | later hnode _ ih =>
    obtain ⟨q, hq⟩ := ih
    exact ⟨q, .cons hnode hq⟩
  | choose _ ih =>
    obtain ⟨q, hq⟩ := ih
    exact ⟨q, .choose hq⟩
  | otherwise _ ih =>
    obtain ⟨q, hq⟩ := ih
    exact ⟨q, .otherwise hq⟩
  | holds hcondition hv _ ih =>
    obtain ⟨q, hq⟩ := ih
    exact ⟨q, .holds hcondition hv hq⟩
  | passes hcondition hv _ ih =>
    obtain ⟨q, hq⟩ := ih
    exact ⟨q, .passes hcondition hv hq⟩
  -- a frame that lies over the part is taken away again, the fault stays
  | noItems hcollection hempty _ ih =>
    obtain ⟨q, hq⟩ := ih
    exact ⟨q.pop, .noItems hcollection hempty hq⟩
  | items hcollection hentries _ ih =>
    obtain ⟨q, hq⟩ := ih
    exact ⟨q, .items hcollection hentries hq⟩
  | item _ ih =>
    obtain ⟨q, hq⟩ := ih
    exact ⟨q.pop, .lastItem hq (by rintro _ _ ⟨⟩)⟩
  | laterItem hbody hflow _ ih =>
    obtain ⟨q, hq⟩ := ih
    exact ⟨q, .item hbody hflow hq⟩
  | run hname harguments _ ih =>
    obtain ⟨q, hq⟩ := ih
    exact ⟨q, .run hname harguments hq⟩
  | asked hasked _ ih =>
    obtain ⟨q, hq⟩ := ih
    exact ⟨q, .asked hasked hq⟩
  | call hname hdepth _ ih =>
    obtain ⟨q, hq⟩ := ih
    exact ⟨q.back _, .call hname hdepth hq⟩

end Stencil
