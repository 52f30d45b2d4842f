/-
Stencil/Proofs/Outcome.lean

The rules of a render and the renderer.  For each way in which the rules go on, a lemma
says that the renderer does the same from the same point (`perform_...`).

The main result, `renders_iff`: every job has exactly one outcome, the one that the
renderer computes with as many runs of sub-templates left as the count of the point
allows.  That there is an outcome at all is shown by recursion on the nodes, and around
it by induction on how many runs are left; so a render ends also where sub-templates
run one another.
-/
import Stencil.Proofs.Course

namespace Stencil

open Rendering

/-! ### What the renderer does from a point on -/

section After

variable {α β : Type} {p q : Point}

theorem Point.after_bind_ok {m : Rendering α} {a : α} (h : p.after m = .ok a q)
    (f : α → Rendering β) : p.after (m >>= f) = q.after (f a) := by
  show p.after (EStateM.bind m f) = _
  rw [Point.after] at h ⊢
  rw [EStateM.bind]
  split at h
  · next hm =>
    cases h
    rw [hm]
    rfl
  · cases h

theorem Point.after_bind_error {m : Rendering α} {fault : RenderFault}
    (h : p.after m = .error fault q) (f : α → Rendering β) :
    p.after (m >>= f) = .error fault q := by
  show p.after (EStateM.bind m f) = _
  rw [Point.after] at h ⊢
  rw [EStateM.bind]
  split at h
  · cases h
  · next hm =>
    cases h
    rw [hm]

theorem Point.after_eq_ok_iff {m : Rendering α} {a : α} :
    p.after m = .ok a q ↔ m p.page = .ok a q.page ∧ q.depth = p.depth := by
  obtain ⟨page, depth⟩ := q
  rw [Point.after]
  cases m p.page <;> simp [and_assoc, @eq_comm _ depth]

theorem Point.after_eq_error_iff {m : Rendering α} {fault : RenderFault} :
    p.after m = .error fault q ↔ m p.page = .error fault q.page ∧ q.depth = p.depth := by
  obtain ⟨page, depth⟩ := q
  rw [Point.after]
  cases m p.page <;> simp [and_assoc, @eq_comm _ depth]

/-- An evaluation changes nothing but the memory. -/
theorem Point.exists_of_evaluating_ok {evaluation : Evaluation α} {a : α}
    (h : p.after (evaluating evaluation) = .ok a q) :
    ∃ memory, evaluation p.page.memory = .ok a memory ∧ q = { p with page.memory := memory } := by
  simp only [after, evaluating] at h
  cases hm : evaluation p.page.memory with
  | ok b memory =>
    rw [hm] at h
    cases h
    exact ⟨memory, rfl, rfl⟩
  | error fault memory =>
    rw [hm] at h
    cases h

theorem Point.exists_of_evaluating_error {evaluation : Evaluation α} {fault : RenderFault}
    (h : p.after (evaluating evaluation) = .error fault q) :
    ∃ memory, evaluation p.page.memory = .error fault memory ∧
      q = { p with page.memory := memory } := by
  simp only [after, evaluating] at h
  cases hm : evaluation p.page.memory with
  | ok b memory =>
    rw [hm] at h
    cases h
  | error other memory =>
    rw [hm] at h
    cases h
    exact ⟨memory, rfl, rfl⟩

/-- What two parts come to tells what they do with the page. -/
theorem Point.eq_of_after_eq {m m' : Rendering α} (h : p.after m = p.after m') :
    m p.page = m' p.page := by
  simp only [after] at h
  cases hm : m p.page <;> cases hm' : m' p.page <;> rw [hm, hm'] at h <;> cases h <;> rfl

theorem Point.depth_of_ok {m : Rendering α} {a : α} (h : p.after m = .ok a q) :
    q.depth = p.depth := (after_eq_ok_iff.mp h).2

theorem Point.depth_of_error {m : Rendering α} {fault : RenderFault}
    (h : p.after m = .error fault q) : q.depth = p.depth := (after_eq_error_iff.mp h).2

/-- What follows on two parts that come to the same does so too. -/
theorem Point.after_bind_congr {m m' : Rendering α} (h : p.after m = q.after m')
    (f : α → Rendering β) : p.after (m >>= f) = q.after (m' >>= f) := by
  cases hm : p.after m with
  | ok a left => rw [after_bind_ok hm, after_bind_ok (h.symm.trans hm)]
  | error fault left => rw [after_bind_error hm, after_bind_error (h.symm.trans hm)]

theorem Point.after_inFrame (p : Point) (frame : Frame) (m : Rendering α) :
    p.after (inFrame frame m) =
      match (p.push frame).after m with
      | .ok a q => .ok a q.pop
      | .error fault q => .error fault q.pop := by
  simp only [after, inFrame, push]
  cases m { p.page with memory.scope := p.page.memory.scope.push frame } <;> rfl

theorem Point.after_underFrames (p : Point) (frames : List Frame) (m : Rendering α) :
    p.after (underFrames frames m) =
      match (p.enter frames).after m with
      | .ok a q => .ok a (q.back p.scope.frames)
      | .error fault q => .error fault (q.back p.scope.frames) := by
  simp only [after, underFrames, enter]
  cases m { p.page with memory.scope.frames := frames } <;> rfl

end After

/-- Nodes in a frame of their own let what stands behind come next, however they ended. -/
theorem Point.after_inFrame_next (p : Point) (frame : Frame) (m : Rendering Flow) :
    p.after (do let _ ← inFrame frame m; return Flow.next) =
      Outcome.ending .next Point.pop ((p.push frame).after m) := by
  have hframe := p.after_inFrame frame m
  cases hm : (p.push frame).after m with
  | ok flow q =>
    rw [hm] at hframe
    exact after_bind_ok hframe _
  | error fault q =>
    rw [hm] at hframe
    exact after_bind_error hframe _

/-! ### What the renderer does for each job -/

section Perform

variable {settings : Settings} {run : Runner} {p q : Point} {fault : RenderFault}

/-- A node that renders no others is rendered in the same way whatever the runner. -/
theorem renderNode_of_isSimple {node : Node} (h : node.isSimple = true) (run run' : Runner) :
    renderNode settings run node = renderNode settings run' node := by
  cases node with
  | text | output | declare | evaluate | leave | define => simp only [renderNode]
  | choose | forEach | run | dispatch => cases h

section Nodes

variable {node : Node} {nodes : List Node}

theorem perform_nodes_next (h : p.after (renderNode settings run node) = .ok .next q) :
    p.after (renderNodes settings run (node :: nodes)) = q.after (renderNodes settings run nodes) := by
  rw [renderNodes, Point.after_bind_ok h]

theorem perform_nodes_stop (h : ∀ q, p.after (renderNode settings run node) ≠ .ok .next q) :
    p.after (renderNodes settings run (node :: nodes)) = p.after (renderNode settings run node) := by
  rw [renderNodes]
  cases hnode : p.after (renderNode settings run node) with
  | ok flow q =>
    rw [Point.after_bind_ok hnode]
    cases flow with
    | next => exact absurd hnode (h q)
    | leave | finish => rfl
  | error fault q => exact Point.after_bind_error hnode _

end Nodes

section Branches

variable {condition : Expression} {body : List Node} {branches : List Branch}
  {otherwise : Rendering Flow} {v : Value}

theorem perform_branches_error
    (h : p.after (evaluating (evaluate settings.toServices condition)) = .error fault q) :
    p.after (renderBranches settings run (.mk condition body :: branches) otherwise) =
      .error fault q := by
  rw [renderBranches]
  exact Point.after_bind_error h _

theorem perform_branches_ok
    (h : p.after (evaluating (evaluate settings.toServices condition)) = .ok v q) :
    p.after (renderBranches settings run (.mk condition body :: branches) otherwise) =
      if v.isTruthy then q.after (renderNodes settings run body)
      else q.after (renderBranches settings run branches otherwise) := by
  rw [renderBranches, Point.after_bind_ok h]
  split <;> rfl

end Branches

section Loops

variable {item : String} {collection : Expression} {body otherwise : List Node} {v key value : Value}
  {entries : List (Value × Value)}

theorem perform_forEach_error
    (h : p.after (evaluating (evaluateGuarded settings.toServices collection)) = .error fault q) :
    p.after (renderNode settings run (.forEach item collection body otherwise)) = .error fault q := by
  rw [renderNode]
  exact Point.after_bind_error h _

theorem perform_forEach_ok
    (h : p.after (evaluating (evaluateGuarded settings.toServices collection)) = .ok v q) :
    p.after (renderNode settings run (.forEach item collection body otherwise)) =
      if v.entries = [] then
        Outcome.ending .next Point.pop ((q.push []).after (renderNodes settings run otherwise))
      else q.after (Job.perform settings run (.items item body v.entries)) := by
  rw [renderNode, Point.after_bind_ok h]
  by_cases hempty : v.entries = []
  · simp only [hempty, List.isEmpty_nil, if_true]
    exact q.after_inFrame_next [] _
  · simp only [hempty, List.isEmpty_iff, if_false]
    rfl

/-- One round of a loop; something comes out of it if the loop is left. -/
def loopRound (settings : Settings) (run : Runner) (item : String) (body : List Node)
    (key value : Value) : Rendering (Option Unit) := do
  match ← inFrame (loopFrame item key value) (renderNodes settings run body) with
  | .leave => return some ()
  | _ => return none

theorem perform_items_next {flow : Flow} (hflow : flow ≠ .leave)
    (h : (p.push (loopFrame item key value)).after (renderNodes settings run body) = .ok flow q) :
    p.after (Job.perform settings run (.items item body ((key, value) :: entries))) =
      q.pop.after (Job.perform settings run (.items item body entries)) := by
  have hframe := p.after_inFrame (loopFrame item key value) (renderNodes settings run body)
  rw [h] at hframe
  have hround : p.after (loopRound settings run item body key value) = .ok none q.pop := by
    refine (Point.after_bind_ok hframe _).trans ?_
    cases flow with
    | leave => exact absurd rfl hflow
    | next | finish => rfl
  have hrounds : p.after (visitEntries (loopRound settings run item body) ((key, value) :: entries)) =
      q.pop.after (visitEntries (loopRound settings run item body) entries) :=
    Point.after_bind_ok hround _
  exact Point.after_bind_congr hrounds _

theorem perform_items_last {r : Outcome} (hlast : ∀ flow q, r = .ok flow q → flow = .leave)
    (h : (p.push (loopFrame item key value)).after (renderNodes settings run body) = r) :
    p.after (Job.perform settings run (.items item body ((key, value) :: entries))) =
      r.ending .next Point.pop := by
  have hframe := p.after_inFrame (loopFrame item key value) (renderNodes settings run body)
  rw [h] at hframe
  cases r with
  | ok flow q =>
    obtain rfl := hlast flow q rfl
    have hround : p.after (loopRound settings run item body key value) = .ok (some ()) q.pop :=
      Point.after_bind_ok hframe _
    have hrounds : p.after (visitEntries (loopRound settings run item body)
        ((key, value) :: entries)) = .ok (some ()) q.pop := Point.after_bind_ok hround _
    exact Point.after_bind_ok hrounds _
  | error fault q =>
    have hround : p.after (loopRound settings run item body key value) = .error fault q.pop :=
      Point.after_bind_error hframe _
    have hrounds : p.after (visitEntries (loopRound settings run item body)
        ((key, value) :: entries)) = .error fault q.pop := Point.after_bind_error hround _
    exact Point.after_bind_error hrounds _

end Loops

section Calls

variable {name : String} {arguments : List Expression} {values : List Value} {span : Span}
  {s : Subtemplate} {context : Value}

theorem perform_run_unknown (h : p.page.registry.lookup name = none) :
    p.after (renderNode settings run (.run name arguments span)) = .ok .next p := by
  rw [renderNode]
  have hpage : p.after (get : Rendering Page) = .ok p.page p := rfl
  rw [Point.after_bind_ok hpage]
  simp only [h, Option.isSome_none, Bool.false_eq_true, if_false]
  rfl

theorem perform_run_known (h : p.page.registry.lookup name = some s) :
    p.after (renderNode settings run (.run name arguments span)) =
      p.after (do
        run name (← evaluating (evaluateAll settings.toServices arguments)) span
        return .next) := by
  rw [renderNode]
  have hpage : p.after (get : Rendering Page) = .ok p.page p := rfl
  rw [Point.after_bind_ok hpage]
  simp only [h, Option.isSome_some, if_true]

theorem perform_dispatch (h : settings.asked = some (name, context)) :
    p.after (renderNode settings run .dispatch) =
      Outcome.ending .finish id
        (p.cleared.after (Job.perform settings run (.call name [context] (.at 0)))) := by
  rw [renderNode, h]
  have hclear : p.after Rendering.clear = .ok () p.cleared := rfl
  rw [Point.after_bind_ok hclear, Job.perform]
  cases hrun : p.cleared.after (run name [context] (.at 0)) with
  | ok _ q =>
    rw [Point.after_bind_ok hrun, Point.after_bind_ok hrun]
    rfl
  | error fault q =>
    rw [Point.after_bind_error hrun, Point.after_bind_error hrun]
    rfl

theorem perform_call_nothing (h : p.page.registry.lookup name = none) :
    p.after (Job.perform settings (p.runner settings) (.call name values span)) = .ok .next p := by
  have hpage : p.after (get : Rendering Page) = .ok p.page p := rfl
  have hrun : p.after (p.runner settings name values span) = .ok () p := by
    unfold Point.runner runSubtemplate
    rw [Point.after_bind_ok hpage, h]
    rfl
  exact Point.after_bind_ok hrun _

theorem perform_call_tooDeep (h : p.page.registry.lookup name = some s)
    (hdepth : maxDepth ≤ p.depth) :
    p.after (Job.perform settings (p.runner settings) (.call name values span)) =
      .error (.callDepth name maxDepth span) p := by
  have hpage : p.after (get : Rendering Page) = .ok p.page p := rfl
  have hrun : p.after (p.runner settings name values span) =
      .error (.callDepth name maxDepth span) p := by
    rw [Point.runner, Nat.sub_eq_zero_of_le hdepth, runSubtemplate, Point.after_bind_ok hpage, h]
    rfl
  exact Point.after_bind_error hrun _

theorem perform_call (h : p.page.registry.lookup name = some s) (hdepth : p.depth < maxDepth) :
    p.after (Job.perform settings (p.runner settings) (.call name values span)) =
      Outcome.ending .next (Point.back p.scope.frames)
        ((p.enter (s.frame values :: s.captured)).after (renderNodes settings
          ((p.enter (s.frame values :: s.captured)).runner settings) s.body)) := by
  have hpage : p.after (get : Rendering Page) = .ok p.page p := rfl
  -- one run less is left for the body
  have hremaining : maxDepth - p.depth = maxDepth - (p.depth + 1) + 1 := by omega
  have hframes := p.after_underFrames (s.frame values :: s.captured) (renderNodes settings
    ((p.enter (s.frame values :: s.captured)).runner settings) s.body)
  have hrun : p.after (p.runner settings name values span) = p.after (do
      let _ ← underFrames (s.frame values :: s.captured) (renderNodes settings
        ((p.enter (s.frame values :: s.captured)).runner settings) s.body)) := by
    rw [Point.runner, hremaining, runSubtemplate, Point.after_bind_ok hpage, h]
    rfl
  cases hbody : (p.enter (s.frame values :: s.captured)).after (renderNodes settings
    ((p.enter (s.frame values :: s.captured)).runner settings) s.body) with
  | ok flow q =>
    rw [hbody] at hframes
    exact Point.after_bind_ok (hrun.trans (Point.after_bind_ok hframes _)) _
  | error fault q =>
    rw [hbody] at hframes
    exact Point.after_bind_error (hrun.trans (Point.after_bind_error hframes _)) _

end Calls

end Perform

/-! ### The rules and the renderer -/

section Renderer

variable {settings : Settings}

theorem Point.runner_of_ok {α : Type} {p q : Point} {m : Rendering α} {a : α}
    (h : p.after m = .ok a q) : q.runner settings = p.runner settings := by
  rw [runner, runner, depth_of_ok h]

/-- What the rules say is what the renderer does. -/
theorem Renders.eq_after {job : Job} {p : Point} {r : Outcome} (h : Renders settings job p r) :
    r = p.after (job.perform settings (p.runner settings)) := by
  -- by induction on the derivation: each rule is an equation on what the renderer does, and its
  -- premises say what the parts come to
  induction h with
  | simple run hsimple =>
    rw [Job.perform, renderNode_of_isSimple hsimple]
  | nil => rfl
  | cons hnode hnodes ihnode ihnodes =>
    rw [Job.perform, perform_nodes_next ihnode.symm, ihnodes, Point.runner_of_ok ihnode.symm,
      Job.perform]
  | stop hnode hstop ih =>
    rw [ih] at hstop ⊢
    exact (perform_nodes_stop hstop).symm
  | choose hbranches ih => rw [ih, Job.perform, Job.perform, renderNode]
  | otherwise hnodes ih => rw [ih, Job.perform, Job.perform, renderBranches]
  | conditionFails hcondition => exact (perform_branches_error hcondition).symm
  | holds hcondition hv hbody ih =>
    rw [Job.perform, perform_branches_ok hcondition, if_pos hv, ih, Point.runner_of_ok hcondition,
      Job.perform]
  | passes hcondition hv hbranches ih =>
    rw [Job.perform, perform_branches_ok hcondition, if_neg (by simp [hv]), ih,
      Point.runner_of_ok hcondition, Job.perform]
  | collectionFails hcollection => exact (perform_forEach_error hcollection).symm
  | noItems hcollection hempty hotherwise ih =>
    rw [Job.perform, perform_forEach_ok hcollection, if_pos hempty, ih,
      ← Point.runner_of_ok hcollection]
    rfl
  | items hcollection hentries hitems ih =>
    rw [Job.perform, perform_forEach_ok hcollection, if_neg hentries, ih,
      Point.runner_of_ok hcollection]
  | done => rfl
  -- the frame of a round is taken away before the next one, and the runner depends on the depth only
  | @item _ _ _ _ _ p q _ _ hbody hflow hitems ihbody ihitems =>
    have hrunner : q.runner settings = p.runner settings :=
      (Point.runner_of_ok ihbody.symm).trans rfl
    rw [ihitems, show q.pop.runner settings = p.runner settings from hrunner]
    exact (perform_items_next hflow ihbody.symm).symm
  | lastItem hbody hlast ih => exact (perform_items_last hlast ih.symm).symm
  | unknown hname => exact (perform_run_unknown hname).symm
  | argumentFails hname harguments =>
    rw [Job.perform, perform_run_known hname, Point.after_bind_error harguments]
  | run hname harguments hcall ih =>
    rw [Job.perform, perform_run_known hname, Point.after_bind_ok harguments, ih,
      Point.runner_of_ok harguments, Job.perform]
  | notAsked hasked =>
    rw [Job.perform, renderNode, hasked]
    rfl
  | asked hasked hcall ih =>
    rw [Job.perform, perform_dispatch hasked, ih]
    rfl
  | nothing hname => exact (perform_call_nothing hname).symm
  | tooDeep hname hdepth => exact (perform_call_tooDeep hname hdepth).symm
  | call hname hdepth hbody ih => rw [perform_call hname hdepth, ih, Job.perform]

section Exists

variable {run : Runner} {depth : Nat}

/-- The rounds of a loop have an outcome if those of its body have. -/
theorem renders_items {body : List Node}
    (hbody : ∀ p : Point, p.depth = depth →
      Renders settings (.nodes body) p (p.after (renderNodes settings run body)))
    (item : String) (entries : List (Value × Value)) (p : Point) (hp : p.depth = depth) :
    Renders settings (.items item body entries) p
      (p.after (Job.perform settings run (.items item body entries))) := by
  induction entries generalizing p with
  | nil => exact .done
  | cons entry entries ih =>
    obtain ⟨key, value⟩ := entry
    have hround := hbody (p.push (loopFrame item key value)) hp
    cases hr : (p.push (loopFrame item key value)).after (renderNodes settings run body) with
    | error fault q =>
      rw [hr] at hround
      have hlast : ∀ flow left, (.error fault q : Outcome) = .ok flow left → flow = .leave := by
        rintro _ _ ⟨⟩
      rw [perform_items_last hlast hr]
      exact .lastItem hround hlast
    | ok flow q =>
      rw [hr] at hround
      by_cases hflow : flow = .leave
      · have hlast : ∀ other left, (.ok flow q : Outcome) = .ok other left → other = .leave := by
          rintro _ _ ⟨⟩
          exact hflow
        rw [perform_items_last hlast hr]
        exact .lastItem hround hlast
      · rw [perform_items_next hflow hr]
        exact .item hround hflow (ih q.pop ((Point.depth_of_ok hr).trans hp))

/-- Calls have the outcome that a runner computes, from points with a given count. -/
def CallsRender (settings : Settings) (run : Runner) (depth : Nat) : Prop :=
  ∀ name arguments span (p : Point), p.depth = depth →
    Renders settings (.call name arguments span) p
      (p.after (Job.perform settings run (.call name arguments span)))

mutual

theorem renders_node (hcall : CallsRender settings run depth) :
    (node : Node) → (p : Point) → p.depth = depth →
    Renders settings (.node node) p (p.after (renderNode settings run node))
  -- the cases are those of the renderer, with one rule for each way in which a node can go on
  | .text _, _, _ => .simple run rfl
  | .output .., _, _ => .simple run rfl
  | .declare .., _, _ => .simple run rfl
  | .evaluate _, _, _ => .simple run rfl
  | .leave, _, _ => .simple run rfl
  | .define .., _, _ => .simple run rfl
  | .choose branches otherwise, p, hp => by
    rw [renderNode]
    exact .choose (renders_branches hcall branches otherwise (renders_nodes hcall otherwise) p hp)
  | .forEach item collection body otherwise, p, hp => by
    -- first what the collection comes to, then whether it has entries
    cases hcollection : p.after (evaluating (evaluateGuarded settings.toServices collection)) with
    | error fault q =>
      rw [perform_forEach_error hcollection]
      exact .collectionFails hcollection
    | ok v q =>
      have hq : q.depth = depth := (Point.depth_of_ok hcollection).trans hp
      rw [perform_forEach_ok hcollection]
      split
      · next hempty =>
        exact .noItems hcollection hempty (renders_nodes hcall otherwise (q.push []) hq)
      · next hentries =>
        have hbody := renders_items (renders_nodes hcall body) item v.entries q hq
        exact .items hcollection hentries hbody
  | .run name arguments span, p, hp => by
    -- first whether there is such a sub-template, then what the arguments come to
    cases hname : p.page.registry.lookup name with
    | none =>
      rw [perform_run_unknown hname]
      exact .unknown hname
    | some s =>
      rw [perform_run_known hname]
      cases harguments : p.after (evaluating (evaluateAll settings.toServices arguments)) with
      | error fault q =>
        rw [Point.after_bind_error harguments]
        exact .argumentFails hname harguments
      | ok values q =>
        rw [Point.after_bind_ok harguments]
        exact .run hname harguments
          (hcall name values span q ((Point.depth_of_ok harguments).trans hp))
  | .dispatch, p, hp => by
    cases hasked : settings.asked with
    | none =>
      rw [renderNode, hasked]
      exact .notAsked hasked
    | some asked =>
      rw [perform_dispatch hasked]
      exact .asked hasked (hcall asked.1 [asked.2] (.at 0) p.cleared hp)

theorem renders_nodes (hcall : CallsRender settings run depth) :
    (nodes : List Node) → (p : Point) → p.depth = depth →
    Renders settings (.nodes nodes) p (p.after (renderNodes settings run nodes))
  | [], p, hp => by
    rw [renderNodes]
    exact .nil
  | node :: nodes, p, hp => by
    have hnode := renders_node hcall node p hp
    by_cases hnext : ∃ q, p.after (renderNode settings run node) = .ok .next q
    · obtain ⟨q, hq⟩ := hnext
      rw [perform_nodes_next hq]
      rw [hq] at hnode
      exact .cons hnode (renders_nodes hcall nodes q ((Point.depth_of_ok hq).trans hp))
    · have hstop : ∀ q, p.after (renderNode settings run node) ≠ .ok .next q :=
        fun q hq => hnext ⟨q, hq⟩
      rw [perform_nodes_stop hstop]
      exact .stop hnode hstop

theorem renders_branches (hcall : CallsRender settings run depth) :
    (branches : List Branch) → (otherwise : List Node) →
    (∀ p : Point, p.depth = depth →
      Renders settings (.nodes otherwise) p (p.after (renderNodes settings run otherwise))) →
    (p : Point) → p.depth = depth →
    Renders settings (.branches branches otherwise) p
      (p.after (renderBranches settings run branches (renderNodes settings run otherwise)))
  | [], otherwise, hotherwise, p, hp => by
    rw [renderBranches]
    exact .otherwise (hotherwise p hp)
  | .mk condition body :: branches, otherwise, hotherwise, p, hp => by
    cases hcondition : p.after (evaluating (evaluate settings.toServices condition)) with
    | error fault q =>
      rw [perform_branches_error hcondition]
      exact .conditionFails hcondition
    | ok v q =>
      have hq : q.depth = depth := (Point.depth_of_ok hcondition).trans hp
      rw [perform_branches_ok hcondition]
      split
      · next hv => exact .holds hcondition hv (renders_nodes hcall body q hq)
      · next hv =>
        have hrest := renders_branches hcall branches otherwise hotherwise q hq
        exact .passes hcondition (by simpa using hv) hrest

end

end Exists

/-- Calls have an outcome.  The induction is on how many runs are left. -/
theorem renders_call (name : String) (arguments : List Value) (span : Span) (p : Point) :
    Renders settings (.call name arguments span) p
      (p.after (Job.perform settings (p.runner settings) (.call name arguments span))) := by
  induction hremaining : maxDepth - p.depth generalizing name arguments span p with
  | zero =>
    cases hname : p.page.registry.lookup name with
    | none =>
      rw [perform_call_nothing hname]
      exact .nothing hname
    | some s =>
      have hdepth : maxDepth ≤ p.depth := Nat.sub_eq_zero_iff_le.mp hremaining
      rw [perform_call_tooDeep hname hdepth]
      exact .tooDeep hname hdepth
  | succ remaining ih =>
    cases hname : p.page.registry.lookup name with
    | none =>
      rw [perform_call_nothing hname]
      exact .nothing hname
    | some s =>
      have hdepth : p.depth < maxDepth := by omega
      rw [perform_call hname hdepth]
      -- the body is rendered one deeper, so its calls have one run less left
      refine .call hname hdepth (renders_nodes (fun name values span q hq => ?_) s.body _ rfl)
      have hrunner : q.runner settings =
          (p.enter (s.frame arguments :: s.captured)).runner settings := by
        rw [Point.runner, Point.runner, hq]
      rw [← hrunner]
      rw [Point.enter_depth] at hq
      exact ih name values span q (by omega)

/-- **Every job has exactly one outcome, the one that the renderer computes.** -/
theorem renders_iff (job : Job) (p : Point) (r : Outcome) :
    Renders settings job p r ↔ r = p.after (job.perform settings (p.runner settings)) := by
  refine ⟨Renders.eq_after, ?_⟩
  rintro rfl
  have hcall : CallsRender settings (p.runner settings) p.depth := by
    intro name arguments span q hq
    have hrunner : q.runner settings = p.runner settings := by rw [Point.runner, Point.runner, hq]
    rw [← hrunner]
    exact renders_call name arguments span q
  cases job with
  | node node => exact renders_node hcall node p rfl
  | nodes nodes => exact renders_nodes hcall nodes p rfl
  | branches branches otherwise =>
    exact renders_branches hcall branches otherwise (renders_nodes hcall otherwise) p rfl
  | items item body entries => exact renders_items (renders_nodes hcall body) item entries p rfl
  | call name arguments span => exact hcall name arguments span p rfl

theorem renders_renderAt (settings : Settings) (nodes : List Node) (p : Point) :
    Renders settings (.nodes nodes) p (p.after (renderAt settings p.depth nodes)) :=
  (renders_iff (.nodes nodes) p _).mpr rfl

/-- The count of the bodies that are being rendered is the same as before, however a job ends. -/
theorem Renders.depth_eq {job : Job} {p : Point} {r : Outcome} (h : Renders settings job p r) :
    r.point.depth = p.depth := by
  rw [h.eq_after]
  cases hr : p.after (job.perform settings (p.runner settings)) with
  | ok flow q => exact Point.depth_of_ok hr
  | error fault q => exact Point.depth_of_error hr

end Renderer

end Stencil
