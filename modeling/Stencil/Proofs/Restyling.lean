/-
Stencil/Proofs/Restyling.lean

The output is only written.  Nothing that a render does looks at what has been written
so far: from pages that differ in their output alone, the same nodes end in the same
way, on pages that again differ in their output alone.

What is more, the text of a document and the forms in which it writes its values go
nowhere but into the output.  `Node.plain` empties the text and takes the default form
for every other one, outside of definitions; two documents with the same plain nodes end
alike (`unseeing_of_plain`).  Definitions keep their bodies as they are, since a body is
what the registry remembers.
-/
import Stencil.Proofs.Agreement
import Stencil.Proofs.Outcome

namespace Stencil

open Rendering

/-! ### Plain nodes -/

mutual

/-- A node without its text and its forms, outside of definitions. -/
def Node.plain : Node → Node
  | .text _ => .text ""
  | .output _ value => .output .default value
  | .choose branches otherwise => .choose (plainBranches branches) (plainNodes otherwise)
  | .forEach item collection body otherwise =>
    .forEach item collection (plainNodes body) (plainNodes otherwise)
  | .declare name value => .declare name value
  | .evaluate e => .evaluate e
  | .leave => .leave
  | .define name parameters body => .define name parameters body
  | .run name arguments span => .run name arguments span
  | .dispatch => .dispatch

/-- Nodes without their text and their forms. -/
def plainNodes : List Node → List Node
  | [] => []
  | node :: nodes => node.plain :: plainNodes nodes

/-- Branches without the text and the forms of their bodies. -/
def plainBranches : List Branch → List Branch
  | [] => []
  | .mk condition body :: branches => .mk condition (plainNodes body) :: plainBranches branches

end

/-! ### Pages that differ in their output -/

/-- The two pages differ at most in their output. -/
structure Page.SameButOutput (p p' : Page) : Prop where
  memory : p.memory = p'.memory
  registry : p.registry = p'.registry

/-- The two parts of a render come out alike from pages that differ in their output alone. -/
abbrev Unseeing {α : Type} (m m' : Rendering α) : Prop :=
  Alike Page.SameButOutput (fun _ => True) m m'

section Parts

variable {α β : Type}

theorem Page.SameButOutput.refl (p : Page) : p.SameButOutput p := ⟨rfl, rfl⟩

theorem Unseeing.symm {m m' : Rendering α} (h : Unseeing m m') : Unseeing m' m := by
  intro p p' hp
  have hsame := h p' p ⟨hp.memory.symm, hp.registry.symm⟩
  generalize m p' = left, m' p = right at hsame ⊢
  cases hsame with
  | ok hq => exact .ok ⟨hq.memory.symm, hq.registry.symm⟩
  | error _ hq => exact .error trivial ⟨hq.memory.symm, hq.registry.symm⟩

theorem Unseeing.trans {m m' m'' : Rendering α} (h : Unseeing m m') (h' : Unseeing m' m'') :
    Unseeing m m'' := by
  intro p p' hp
  have hfirst := h p p (.refl p)
  have hsecond := h' p p' hp
  generalize m p = first, m' p = second, m'' p' = third at hfirst hsecond ⊢
  cases hfirst with
  | ok hq =>
    cases hsecond with
    | ok hq' => exact .ok ⟨hq.memory.trans hq'.memory, hq.registry.trans hq'.registry⟩
  | error _ hq =>
    cases hsecond with
    | error _ hq' =>
      exact .error trivial ⟨hq.memory.trans hq'.memory, hq.registry.trans hq'.registry⟩

theorem unseeing_evaluating (evaluation : Evaluation α) :
    Unseeing (evaluating evaluation) (evaluating evaluation) := by
  intro p p' hp
  rw [evaluating, evaluating, hp.memory]
  cases evaluation p'.memory with
  | ok a memory => exact .ok ⟨rfl, hp.registry⟩
  | error fault memory => exact .error trivial ⟨rfl, hp.registry⟩

/-- What is written makes no difference. -/
theorem unseeing_write (text text' : String) : Unseeing (write text) (write text') :=
  .modify fun _ _ hp => ⟨hp.memory, hp.registry⟩

theorem unseeing_clear : Unseeing Rendering.clear Rendering.clear :=
  .modify fun _ _ hp => ⟨hp.memory, hp.registry⟩

theorem unseeing_changeScope (change : Scope → Scope) :
    Unseeing (changeScope change) (changeScope change) := by
  refine .modify fun p p' hp => ⟨?_, hp.registry⟩
  simp only [hp.memory]

theorem unseeing_register (name : String) (parameters : List String) (body : List Node) :
    Unseeing (register name parameters body) (register name parameters body) := by
  refine .modify fun p p' hp => ⟨hp.memory, ?_⟩
  simp only [hp.memory, hp.registry]

theorem unseeing_inFrame (frame : Frame) {body body' : Rendering α} (h : Unseeing body body') :
    Unseeing (inFrame frame body) (inFrame frame body') := by
  intro p p' hp
  have hsame := h { p with memory.scope := p.memory.scope.push frame }
    { p' with memory.scope := p'.memory.scope.push frame } ⟨by simp only [hp.memory], hp.registry⟩
  rw [inFrame, inFrame]
  generalize body _ = left, body' _ = right at hsame
  cases hsame with
  | ok hq => exact .ok ⟨by simp only [hq.memory], hq.registry⟩
  | error _ hq => exact .error trivial ⟨by simp only [hq.memory], hq.registry⟩

theorem unseeing_underFrames (frames : List Frame) {body body' : Rendering α}
    (h : Unseeing body body') : Unseeing (underFrames frames body) (underFrames frames body') := by
  intro p p' hp
  have hsame := h { p with memory.scope.frames := frames } { p' with memory.scope.frames := frames }
    ⟨by simp only [hp.memory], hp.registry⟩
  rw [underFrames, underFrames]
  generalize body _ = left, body' _ = right at hsame
  cases hsame with
  | ok hq => exact .ok ⟨by simp only [hq.memory, hp.memory], hq.registry⟩
  | error _ hq => exact .error trivial ⟨by simp only [hq.memory, hp.memory], hq.registry⟩

theorem unseeing_visitEntries {f f' : Value → Value → Rendering (Option β)}
    (hf : ∀ key value, Unseeing (f key value) (f' key value)) (entries : List (Value × Value)) :
    Unseeing (visitEntries f entries) (visitEntries f' entries) := by
  induction entries with
  | nil => exact .pure none
  | cons entry entries ih =>
    refine .bind (hf entry.1 entry.2) fun answer => ?_
    cases answer with
    | none => exact ih
    | some b => exact .pure (some b)

end Parts

/-! ### Nodes -/

section Nodes

variable {settings : Settings} {run : Runner}

/-- A runner that does not look at the output. -/
def Runner.Unseeing (run : Runner) : Prop :=
  ∀ name arguments span, Stencil.Unseeing (run name arguments span) (run name arguments span)

mutual

theorem unseeing_plain (hrun : run.Unseeing) :
    (node : Node) → Unseeing (renderNode settings run node) (renderNode settings run node.plain)
  -- the plain node does the same but for the texts, which write nothing; the output is never looked at
  | .text text => by
    rw [Node.plain, renderNode, renderNode]
    exact .bind (unseeing_write text "") fun _ => .pure _
  | .output form value => by
    rw [Node.plain, renderNode, renderNode]
    refine .bind (unseeing_evaluating _) fun v => ?_
    dsimp only
    split
    · exact .bind (unseeing_write _ _) fun _ => .pure _
    · exact .pure _
  | .declare name none => by
    rw [Node.plain, renderNode]
    exact .bind (.pure _) fun v => .bind (unseeing_changeScope _) fun _ => .pure _
  | .declare name (some e) => by
    rw [Node.plain, renderNode]
    exact .bind (unseeing_evaluating _) fun v => .bind (unseeing_changeScope _) fun _ => .pure _
  | .evaluate e => by
    rw [Node.plain, renderNode]
    exact .bind (unseeing_evaluating _) fun _ => .pure _
  | .choose branches otherwise => by
    rw [Node.plain, renderNode, renderNode]
    exact unseeing_plainBranches hrun branches (unseeing_plainNodes hrun otherwise)
  | .forEach item collection body otherwise => by
    rw [Node.plain, renderNode, renderNode]
    -- the items are visited in the same order, and the bodies are plain in their turn
    refine .bind (unseeing_evaluating _) fun v => ?_
    split
    · exact .bind (unseeing_inFrame _ (unseeing_plainNodes hrun otherwise)) fun _ => .pure _
    · refine .bind (unseeing_visitEntries (fun key value => ?_) _) fun _ => .pure _
      refine .bind (unseeing_inFrame _ (unseeing_plainNodes hrun body)) fun flow => ?_
      split <;> exact .pure _
  | .leave => by
    rw [Node.plain, renderNode]
    exact .pure _
  | .define name parameters body => by
    rw [Node.plain, renderNode]
    exact .bind (unseeing_register name parameters body) fun _ => .pure _
  | .run name arguments span => by
    rw [Node.plain, renderNode]
    -- the registries are the same
    refine .get_bind fun p p' hp => ?_
    rw [hp.registry]
    dsimp only
    split
    · exact .bind (unseeing_evaluating _) fun values => .bind (hrun name values span) fun _ => .pure _
    · exact .pure _
  | .dispatch => by
    rw [Node.plain, renderNode]
    split
    · exact .bind unseeing_clear fun _ => .bind (hrun _ _ _) fun _ => .pure _
    · exact .pure _

theorem unseeing_plainNodes (hrun : run.Unseeing) : (nodes : List Node) →
    Unseeing (renderNodes settings run nodes) (renderNodes settings run (plainNodes nodes))
  | [] => by
    rw [plainNodes, renderNodes]
    exact .pure _
  | node :: nodes => by
    rw [plainNodes, renderNodes, renderNodes]
    refine .bind (unseeing_plain hrun node) fun flow => ?_
    split
    · exact unseeing_plainNodes hrun nodes
    · exact .pure _

theorem unseeing_plainBranches (hrun : run.Unseeing) : (branches : List Branch) →
    {otherwise otherwise' : Rendering Flow} → Unseeing otherwise otherwise' →
    Unseeing (renderBranches settings run branches otherwise)
      (renderBranches settings run (plainBranches branches) otherwise')
  | [], otherwise, otherwise', h => by
    rw [plainBranches, renderBranches, renderBranches]
    exact h
  | .mk condition body :: branches, otherwise, otherwise', h => by
    rw [plainBranches, renderBranches, renderBranches]
    refine .bind (unseeing_evaluating _) fun v => ?_
    split
    · exact unseeing_plainNodes hrun body
    · exact unseeing_plainBranches hrun branches h

end

/-- Nodes that are the same but for text and forms come out alike. -/
theorem unseeing_of_plain (hrun : run.Unseeing) {node node' : Node} (h : node.plain = node'.plain) :
    Unseeing (renderNode settings run node) (renderNode settings run node') := by
  have hnode : Unseeing (renderNode settings run node) (renderNode settings run node.plain) :=
    unseeing_plain hrun node
  rw [h] at hnode
  exact hnode.trans (unseeing_plain hrun node').symm

/-- No run of a sub-template looks at the output. -/
theorem unseeing_runSubtemplate (settings : Settings) (remaining : Nat) :
    (runSubtemplate settings remaining : Runner).Unseeing := by
  intro name arguments span
  induction remaining generalizing name arguments span with
  | zero =>
    rw [runSubtemplate]
    refine .get_bind fun p p' hp => ?_
    rw [hp.registry]
    cases p'.registry.lookup name with
    | none => exact .pure _
    | some s => exact .throw trivial
  | succ remaining ih =>
    rw [runSubtemplate]
    refine .get_bind fun p p' hp => ?_
    rw [hp.registry]
    cases p'.registry.lookup name with
    | none => exact .pure _
    | some s =>
      have hbody : Unseeing (renderNodes settings (runSubtemplate settings remaining) s.body)
          (renderNodes settings (runSubtemplate settings remaining) (plainNodes s.body)) :=
        unseeing_plainNodes ih s.body
      exact .bind (unseeing_underFrames _ (hbody.trans hbody.symm)) fun _ => .pure _

end Nodes

/-! ### Points that differ in their output -/

section Points

variable {p p' : Point}

theorem Point.sameButOutput_of_cleared (h : p.cleared = p'.cleared) :
    p.page.SameButOutput p'.page ∧ p.depth = p'.depth := by
  simp only [cleared, mk.injEq, Page.mk.injEq] at h
  exact ⟨⟨h.1.1, h.1.2.1⟩, h.2⟩

theorem Point.cleared_eq (hpage : p.page.SameButOutput p'.page) (hdepth : p.depth = p'.depth) :
    p.cleared = p'.cleared := by
  simp only [cleared, hpage.memory, hpage.registry, hdepth]

/-- What does not look at the output comes to the same from points that differ in it alone. -/
theorem Unseeing.after_ok {α : Type} {m m' : Rendering α} {a : α} {q : Point} (hm : Unseeing m m')
    (hp : p.cleared = p'.cleared) (h : p.after m = .ok a q) :
    ∃ q', p'.after m' = .ok a q' ∧ q.cleared = q'.cleared := by
  obtain ⟨hpage, hdepth⟩ := Point.sameButOutput_of_cleared hp
  have hsame := hm p.page p'.page hpage
  rw [Point.after] at h ⊢
  generalize m p.page = left, m' p'.page = right at h hsame ⊢
  cases hsame with
  | ok hq =>
    cases h
    exact ⟨_, rfl, Point.cleared_eq hq hdepth⟩
  | error _ _ => cases h

/-- Text and forms of a node, and what has been written before, make no difference to how it ends. -/
theorem Renders.restyled {settings : Settings} {node node' : Node} {flow : Flow} {q : Point}
    (h : Renders settings (.node node) p (.ok flow q)) (hnode : node.plain = node'.plain)
    (hp : p.cleared = p'.cleared) :
    ∃ q', Renders settings (.node node') p' (.ok flow q') ∧ q.cleared = q'.cleared := by
  have hunseeing : Unseeing (renderNode settings (p.runner settings) node)
      (renderNode settings (p.runner settings) node') :=
    unseeing_of_plain (unseeing_runSubtemplate settings _) hnode
  obtain ⟨q', hq', hcleared⟩ := hunseeing.after_ok hp h.eq_after.symm
  have hrunner : p.runner settings = p'.runner settings := by
    rw [Point.runner, Point.runner, (Point.sameButOutput_of_cleared hp).2]
  rw [hrunner] at hq'
  exact ⟨q', (renders_iff _ _ _).mpr hq'.symm, hcleared⟩

end Points

end Stencil
