/-
Stencil/Proofs/Keeping.lean

Invariants of a render.  `Keeps Inv m`: from a page with `Inv` the part `m` of a
render leaves a page with `Inv`, whether it answers or stops with a fault.

A `PageInvariant` says of an invariant what it takes to be kept: it does not look at
the memory, and it survives what a node of the template may do, where `Allowed` says
which marks the nodes may have.  Sub-templates are run from the registry, so the
invariant must also say that their bodies have allowed marks only.

The main result, `Template.render_keeps`: such an invariant holds of the page that a
render of nodes with allowed marks leaves, through branches, loops and runs of
sub-templates.  The induction is on the nodes, and around it on how many runs may
still be nested.
-/
import Stencil.Proofs.Listing
import Stencil.Render

namespace Stencil

/-! ### Parts of a render -/

/-- The page that a part of a render leaves. -/
def Rendering.leaves {α : Type} (m : Rendering α) (page : Page) : Page :=
  match m page with
  | .ok _ page => page
  | .error _ page => page

/-- A part of a render keeps an invariant of the page. -/
def Keeps {α : Type} (Inv : Page → Prop) (m : Rendering α) : Prop :=
  ∀ page, Inv page → Inv (m.leaves page)

section Parts

variable {α β : Type} {Inv : Page → Prop}

theorem Keeps.of_ok {m : Rendering α} (h : Keeps Inv m) {page left : Page} {a : α}
    (hm : m page = .ok a left) (hpage : Inv page) : Inv left := by
  have hleft := h page hpage
  rwa [Rendering.leaves, hm] at hleft

theorem Keeps.pure (a : α) : Keeps Inv (Pure.pure a : Rendering α) := fun _ h => h

theorem Keeps.bind {m : Rendering α} {f : α → Rendering β} (hm : Keeps Inv m)
    (hf : ∀ a, Keeps Inv (f a)) : Keeps Inv (m >>= f) := by
  intro page h
  have hpage := hm page h
  show Inv (Rendering.leaves (EStateM.bind m f) page)
  rw [Rendering.leaves] at hpage ⊢
  rw [EStateM.bind]
  cases hrun : m page with
  | ok a left =>
    rw [hrun] at hpage
    exact hf a left hpage
  | error fault left =>
    rw [hrun] at hpage
    exact hpage

/-- What follows on a look at the page may rely on the invariant. -/
theorem Keeps.get_bind {f : Page → Rendering α} (hf : ∀ page, Inv page → Keeps Inv (f page)) :
    Keeps Inv (MonadState.get >>= f) :=
  fun page h => hf page h page h

theorem Keeps.throw (fault : RenderFault) : Keeps Inv (MonadExcept.throw fault : Rendering α) :=
  fun _ h => h

theorem Keeps.modify {change : Page → Page} (h : ∀ page, Inv page → Inv (change page)) :
    Keeps Inv (modify change : Rendering Unit) := h

theorem Keeps.visitEntries {f : Value → Value → Rendering (Option β)}
    (hf : ∀ key value, Keeps Inv (f key value)) (entries : List (Value × Value)) :
    Keeps Inv (Stencil.visitEntries f entries) := by
  induction entries with
  | nil => exact .pure none
  | cons entry entries ih =>
    refine .bind (hf entry.1 entry.2) fun answer => ?_
    cases answer with
    | none => exact ih
    | some b => exact .pure (some b)

end Parts

/-! ### Parts that change the memory only -/

section Memory

variable {α : Type} {Inv : Page → Prop}
  (hmemory : ∀ page memory, Inv page → Inv { page with memory })
include hmemory

theorem Keeps.evaluating (evaluation : Evaluation α) :
    Keeps Inv (Rendering.evaluating evaluation) := by
  intro page h
  rw [Rendering.leaves, Rendering.evaluating]
  cases evaluation page.memory <;> exact hmemory page _ h

theorem Keeps.changeScope (change : Scope → Scope) : Keeps Inv (Rendering.changeScope change) :=
  .modify fun page h => hmemory page _ h

theorem Keeps.inFrame (frame : Frame) {body : Rendering α} (hbody : Keeps Inv body) :
    Keeps Inv (Rendering.inFrame frame body) := by
  intro page h
  have hpage := hbody _ (hmemory page { page.memory with scope := page.memory.scope.push frame } h)
  rw [Rendering.leaves] at hpage ⊢
  rw [Rendering.inFrame]
  split at hpage <;> next hrun => exact hrun ▸ hmemory _ _ hpage

theorem Keeps.underFrames (frames : List Frame) {body : Rendering α} (hbody : Keeps Inv body) :
    Keeps Inv (Rendering.underFrames frames body) := by
  intro page h
  have hpage := hbody _ (hmemory page { page.memory with scope.frames := frames } h)
  rw [Rendering.leaves] at hpage ⊢
  rw [Rendering.underFrames]
  split at hpage <;> next hrun => exact hrun ▸ hmemory _ _ hpage

end Memory

/-! ### Nodes -/

/-- What it takes for an invariant to hold throughout a render of nodes with allowed marks. -/
structure PageInvariant (escapeDefault : Bool) (pageProtocol : String) (Allowed : Mark → Prop)
    (Inv : Page → Prop) : Prop where
  memory : ∀ page memory, Inv page → Inv { page with memory }
  text : ∀ page text, Allowed (.text text.toList) → Inv page →
    Inv { page with output := page.output ++ text }
  output : ∀ page form value v, Allowed (.output form value) → Inv page →
    Inv { page with
      output := page.output ++ String.ofList (form.write escapeDefault pageProtocol v) }
  clear : ∀ page, Inv page → Inv { page with output := "" }
  register : ∀ page name parameters body captured, Allowed (.define name parameters) →
    (∀ mark ∈ marksOf body, Allowed mark) → Inv page →
    Inv { page with registry := page.registry.put name { parameters, body, captured } }
  bodies : ∀ page name (s : Subtemplate), Inv page → page.registry.lookup name = some s →
    ∀ mark ∈ marksOf s.body, Allowed mark

section Nodes

variable {settings : Settings} {Allowed : Mark → Prop} {Inv : Page → Prop} {run : Runner}

mutual

theorem keeps_renderNode
    (hinv : PageInvariant settings.escapeDefault settings.pageProtocol Allowed Inv)
    (hrun : ∀ name arguments span, Keeps Inv (run name arguments span)) :
    (node : Node) → (∀ mark ∈ node.marks, Allowed mark) →
    Keeps Inv (renderNode settings run node)
  -- the invariant says what it needs for each change of the page, and all that a node does is made of
  -- such changes; what it runs keeps the invariant by assumption
  | .text text, h => by
    rw [renderNode]
    refine .bind (.modify fun page => hinv.text page text (h _ ?_)) fun _ => .pure _
    simp [Node.marks]
  | .output form value, h => by
    rw [renderNode]
    refine .bind (.evaluating hinv.memory _) fun v => ?_
    dsimp only
    split
    · refine .bind (.modify fun page => hinv.output page form value v (h _ ?_)) fun _ => .pure _
      simp [Node.marks]
    · exact .pure _
  | .declare name none, _ => by
    rw [renderNode]
    exact .bind (.pure _) fun v => .bind (.changeScope hinv.memory _) fun _ => .pure _
  | .declare name (some e), _ => by
    rw [renderNode]
    exact .bind (.evaluating hinv.memory _) fun v =>
      .bind (.changeScope hinv.memory _) fun _ => .pure _
  | .evaluate e, _ => by
    rw [renderNode]
    exact .bind (.evaluating hinv.memory _) fun _ => .pure _
  | .choose branches otherwise, h => by
    rw [renderNode]
    rw [Node.marks] at h
    -- the marks of the branches come first, those of the last branch behind them
    refine keeps_renderBranches hinv hrun .ifThen branches _ (fun mark hm => h mark ?_)
      (keeps_renderNodes hinv hrun otherwise fun mark hm => h mark ?_)
    · exact List.mem_append_left _ hm
    · cases otherwise with
      | nil => cases hm
      | cons node nodes => simp [hm]
  | .forEach item collection body otherwise, h => by
    rw [renderNode]
    rw [Node.marks] at h
    have hbody := keeps_renderNodes hinv hrun body fun mark hm => h mark (by simp [hm])
    have hotherwise := keeps_renderNodes hinv hrun otherwise fun mark hm => h mark (by
      -- the last branch is listed where it holds something
      cases otherwise with
      | nil => cases hm
      | cons node nodes => simp [hm])
    refine .bind (.evaluating hinv.memory _) fun v => ?_
    split
    · exact .bind (.inFrame hinv.memory _ hotherwise) fun _ => .pure _
    · -- every entry is visited in a frame of its own
      refine .bind (.visitEntries (fun key value => ?_) _) fun _ => .pure _
      refine .bind (.inFrame hinv.memory _ hbody) fun flow => ?_
      split <;> exact .pure _
  | .leave, _ => by
    rw [renderNode]
    exact .pure _
  | .define name parameters body, h => by
    rw [renderNode]
    rw [Node.marks] at h
    refine .bind (.modify fun page => hinv.register page name parameters body _ ?_ ?_)
      fun _ => .pure _
    · exact h _ List.mem_cons_self
    · exact fun mark hm => h mark (by simp [hm])
  | .run name arguments span, _ => by
    rw [renderNode]
    -- a run that finds no sub-template does nothing
    refine .get_bind fun page _ => ?_
    dsimp only
    split
    · exact .bind (.evaluating hinv.memory _) fun values =>
        .bind (hrun name values span) fun _ => .pure _
    · exact .pure _
  | .dispatch, _ => by
    rw [renderNode]
    split
    · exact .bind (.modify hinv.clear) fun _ => .bind (hrun _ _ _) fun _ => .pure _
    · exact .pure _

theorem keeps_renderNodes
    (hinv : PageInvariant settings.escapeDefault settings.pageProtocol Allowed Inv)
    (hrun : ∀ name arguments span, Keeps Inv (run name arguments span)) :
    (nodes : List Node) → (∀ mark ∈ marksOf nodes, Allowed mark) →
    Keeps Inv (renderNodes settings run nodes)
  | [], _ => by
    rw [renderNodes]
    exact .pure _
  | node :: nodes, h => by
    rw [renderNodes]
    rw [marksOf] at h
    refine .bind (keeps_renderNode hinv hrun node fun mark hm => h mark (List.mem_append_left _ hm))
      fun flow => ?_
    split
    · exact keeps_renderNodes hinv hrun nodes fun mark hm => h mark (List.mem_append_right _ hm)
    · exact .pure _

theorem keeps_renderBranches
    (hinv : PageInvariant settings.escapeDefault settings.pageProtocol Allowed Inv)
    (hrun : ∀ name arguments span, Keeps Inv (run name arguments span)) :
    (opening : Expression → Mark) → (branches : List Branch) →
    (otherwise : Rendering Flow) → (∀ mark ∈ marksOfBranches opening branches, Allowed mark) →
    Keeps Inv otherwise → Keeps Inv (renderBranches settings run branches otherwise)
  | _, [], otherwise, _, hotherwise => by
    rw [renderBranches]
    exact hotherwise
  | opening, .mk condition body :: branches, otherwise, h, hotherwise => by
    rw [renderBranches]
    rw [marksOfBranches] at h
    refine .bind (.evaluating hinv.memory _) fun v => ?_
    split
    · exact keeps_renderNodes hinv hrun body fun mark hm => h mark (by simp [hm])
    · exact keeps_renderBranches hinv hrun .elseIf branches otherwise
        (fun mark hm => h mark (by simp [hm])) hotherwise

end

end Nodes

/-! ### Runs -/

section Runs

variable {settings : Settings} {Allowed : Mark → Prop} {Inv : Page → Prop}
  (hinv : PageInvariant settings.escapeDefault settings.pageProtocol Allowed Inv)
include hinv

/-- A run of a sub-template keeps the invariant, however many runs may still be nested. -/
theorem keeps_runSubtemplate (remaining : Nat) (name : String) (arguments : List Value) (span : Span) :
    Keeps Inv (runSubtemplate settings remaining name arguments span) := by
  induction remaining generalizing name arguments span with
  | zero =>
    rw [runSubtemplate]
    refine .get_bind fun page _ => ?_
    cases page.registry.lookup name with
    | none => exact .pure _
    | some s => exact .throw _
  | succ remaining ih =>
    rw [runSubtemplate]
    refine .get_bind fun page hpage => ?_
    cases hlookup : page.registry.lookup name with
    | none => exact .pure _
    | some s =>
      -- the body comes from the registry, and it may run others with one nested run less
      have hbody := keeps_renderNodes hinv ih s.body (hinv.bodies page name s hpage hlookup)
      exact .bind (.underFrames hinv.memory _ hbody) fun _ => .pure _

end Runs

/-- What is kept throughout a render holds where it ends. -/
theorem Template.render_keeps {t : Template} {Allowed : Mark → Prop} {Inv : Page → Prop}
    (hinv : PageInvariant t.escapeDefault t.pageProtocol Allowed Inv)
    (hnodes : ∀ mark ∈ marksOf t.nodes, Allowed mark) (hstart : ∀ memory, Inv { memory })
    {host : Host} {context : Value} {key output : String}
    (h : t.render host context key = .ok output) : ∃ page, Inv page ∧ page.output = output := by
  rw [Template.render, renderAll] at h
  split at h
  · next left hleft =>
    refine ⟨left, Keeps.of_ok (keeps_renderNodes ?_ ?_ _ hnodes) hleft (hstart _), Except.ok.inj h⟩
    · exact hinv
    · exact keeps_runSubtemplate hinv maxDepth
  · cases h

end Stencil
