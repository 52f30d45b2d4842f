/-
Stencil/Proofs/Inlining.lean

A sub-template without parameters that is run where it was defined, next to its body
written in place.  A run works on a copy of the frames, which its definition made, under
an empty frame of its own; in place the body works on the frames themselves.

`Page.Over names base n` relates the two pages while that goes on: `n` frames more lie
over the others on both, the empty frame lies below these on the first page, and the
frames at the bottom are those of the beginning but for assignments to `names`.  What
the body does for its marks comes out alike from such pages (`congruence_over`); where
it runs a sub-template the frames are swapped, and the pages are the same.

The main result, `run_inlines`, says what the run and the body in place leave: the same
but for the variables of the enclosing frames that the body assigns to, which the run
leaves as they were.
-/
import Mathlib.Data.List.Forall2
import Stencil.Proofs.Asked
import Stencil.Proofs.Balance
import Stencil.Proofs.DepthLimit
import Stencil.Proofs.Endings

namespace Stencil

open Rendering

/-! ### Bodies that may stand in place -/

/-- A statement that declares a name, or a definition. -/
def Mark.binds : Mark → Bool
  | .declare .. | .define .. => true
  | _ => false

/-- The body declares nothing, defines nothing, and leaves no loop but its own. -/
structure Inlinable (body : List Node) : Prop where
  binds : ∀ mark ∈ marksOf body, mark.binds = false
  leaves : leavesIn body = false

/-- The name that an expression assigns to, if it is an assignment. -/
def Expression.assigned? : Expression → Option String
  | .assign _ name _ => some name
  | _ => none

/-- The names that are assigned to in some nodes. -/
def assignedIn (nodes : List Node) : List String :=
  (marksOf nodes).flatMap fun mark =>
    mark.expressions.flatMap fun e => e.parts.filterMap Expression.assigned?

theorem mem_assignedIn {nodes : List Node} {mark : Mark} {e value : Expression} {span : Span}
    {name : String} (hmark : mark ∈ marksOf nodes) (he : e ∈ mark.expressions)
    (hpart : .assign span name value ∈ e.parts) : name ∈ assignedIn nodes := by
  refine List.mem_flatMap.mpr ⟨mark, hmark, List.mem_flatMap.mpr ⟨e, he, ?_⟩⟩
  exact List.mem_filterMap.mpr ⟨_, hpart, rfl⟩

/-- Such a body assigns to nothing but the names that are assigned to in it. -/
theorem soundFor_assignedIn {body : List Node} {mark : Mark} (hmark : mark ∈ marksOf body) :
    ∀ e ∈ mark.expressions, e.SoundFor (fun _ => True) (· ∈ assignedIn body) (fun _ => True) :=
  fun _ he =>
    { mismatch := fun _ _ _ => trivial
      unbound := fun _ _ _ => ⟨trivial, trivial⟩
      assigns := fun _ _ _ hpart => mem_assignedIn hmark he hpart }

/-! ### Assignments to frames -/

/-- The binding again, of the same name, and with the same value unless the name is one of `names`. -/
def MayReassign (names : List String) (binding binding' : String × Value) : Prop :=
  binding'.1 = binding.1 ∧ (binding.1 ∉ names → binding'.2 = binding.2)

/-- The frames again, with the names that they bind in their order; at most `names` stand for something
else. -/
def Reassigned (names : List String) : List Frame → List Frame → Prop :=
  List.Forall₂ (List.Forall₂ (MayReassign names))

section Reassigned

variable {names : List String} {base frames changed : List Frame} {name : String} {v : Value}

theorem Reassigned.refl (names : List String) (frames : List Frame) :
    Reassigned names frames frames :=
  List.forall₂_same.mpr fun _ _ => List.forall₂_same.mpr fun _ _ => ⟨rfl, fun _ => rfl⟩

theorem forall₂_rebind? {bindings others rebound : Bindings Value}
    (h : List.Forall₂ (MayReassign names) bindings others) (hname : name ∈ names)
    (hrebound : Bindings.rebind? name v others = some rebound) :
    List.Forall₂ (MayReassign names) bindings rebound := by
  induction h generalizing rebound with
  | nil => cases hrebound
  | @cons binding other _ rest hbinding hrest ih =>
    obtain ⟨n, old⟩ := other
    rw [Bindings.rebind?] at hrebound
    split at hrebound
    · next hn =>
      cases hrebound
      have hsame : n = binding.1 := hbinding.1
      exact .cons ⟨hsame, fun hnot => absurd (hsame ▸ hn ▸ hname) hnot⟩ hrest
    · obtain ⟨later, hlater, rfl⟩ := Option.map_eq_some_iff.mp hrebound
      exact .cons hbinding (ih hlater)

/-- Frames may be assigned to again. -/
theorem Reassigned.rebindIn? (h : Reassigned names base frames) (hname : name ∈ names)
    (hchanged : rebindIn? name v frames = some changed) : Reassigned names base changed := by
  induction h generalizing changed with
  | nil => cases hchanged
  | cons hframe hrest ih =>
    rw [Stencil.rebindIn?] at hchanged
    split at hchanged
    · next hrebound =>
      cases hchanged
      exact .cons (forall₂_rebind? hframe hname hrebound) hrest
    · obtain ⟨later, hlater, rfl⟩ := Option.map_eq_some_iff.mp hchanged
      exact .cons hframe (ih hlater)

theorem lookup_eq_of_forall₂ {bindings others : Bindings Value}
    (h : List.Forall₂ (MayReassign names) bindings others)
    (hname : name ∈ names → name ∉ bindings.map Prod.fst) :
    others.lookup name = bindings.lookup name := by
  induction h with
  | nil => rfl
  | @cons binding other _ _ hbinding _ ih =>
    obtain ⟨n, old⟩ := binding
    obtain ⟨n', new⟩ := other
    obtain ⟨rfl, hvalue⟩ : n' = n ∧ (n ∉ names → new = old) := hbinding
    by_cases hn : name = n'
    · subst hn
      obtain rfl := hvalue fun hmem => hname hmem List.mem_cons_self
      simp
    · rw [Bindings.lookup_cons, Bindings.lookup_cons, if_neg hn, if_neg hn]
      exact ih fun hmem hin => hname hmem (List.mem_cons_of_mem _ hin)

/-- A name that is not one of `names` stands for the same, and so does one that no frame binds. -/
theorem Reassigned.lookup_eq (h : Reassigned names base frames)
    (hname : name ∈ names → name ∉ base.flatMap Frame.names) :
    frames.flatten.lookup name = base.flatten.lookup name := by
  refine lookup_eq_of_forall₂ (List.rel_flatten h) fun hmem hin => hname hmem ?_
  exact mem_flatMap_names.mpr hin

theorem eq_of_forall₂ {α : Type} {R : α → α → Prop} {l l' : List α} (h : List.Forall₂ R l l')
    (heq : ∀ a ∈ l, ∀ b, R a b → b = a) : l' = l := by
  induction h with
  | nil => rfl
  | @cons a b _ _ hab _ ih =>
    rw [heq a List.mem_cons_self b hab, ih fun a ha => heq a (List.mem_cons_of_mem _ ha)]

/-- Frames that bind none of the names are as they were. -/
theorem Reassigned.eq_of_unbound (h : Reassigned names base frames)
    (hnames : ∀ x ∈ names, x ∉ base.flatMap Frame.names) : frames = base := by
  refine eq_of_forall₂ h fun frame hframe other hother => eq_of_forall₂ hother ?_
  intro binding hbinding again hagain
  have hnot : binding.1 ∉ names := fun hmem => hnames _ hmem
    (List.mem_flatMap.mpr ⟨frame, hframe, Frame.mem_names hbinding⟩)
  exact Prod.ext hagain.1 (hagain.2 hnot)

end Reassigned

/-! ### Pages of a run and of its body in place -/

/-- The memory `m` of a body that is run, and the memory `m'` of the same body in place.  On top, both have
the same `n` frames; below these, `m` has the empty frame of the run; at the bottom, both have the frames
`base` after the same assignments to `names`. -/
structure Memory.Over (names : List String) (base : List Frame) (n : Nat) (m m' : Memory) : Prop where
  frames : ∃ upper lower, upper.length = n ∧ Reassigned names base lower ∧
    m.scope.frames = upper ++ [] :: lower ∧ m'.scope.frames = upper ++ lower
  root : m.scope.root = m'.scope.root
  made : m.made = m'.made

/-- The pages have such memories, and all else is the same. -/
structure Page.Over (names : List String) (base : List Frame) (n : Nat) (p p' : Page) : Prop where
  memory : p.memory.Over names base n p'.memory
  registry : p.registry = p'.registry
  output : p.output = p'.output

section Over

variable {names : List String} {base : List Frame} {n : Nat}

theorem Memory.Over.assign {m m' : Memory} {name : String} (h : m.Over names base n m')
    (hname : name ∈ names) (v : Value) :
    Over names base n { m with scope := m.scope.assign name v }
      { m' with scope := m'.scope.assign name v } := by
  obtain ⟨⟨root, frames⟩, made⟩ := m
  obtain ⟨⟨root', frames'⟩, made'⟩ := m'
  obtain ⟨⟨upper, lower, hn, hlower, hframes, hframes'⟩, hroot, hmade⟩ := h
  obtain rfl : frames = upper ++ [] :: lower := hframes
  obtain rfl : frames' = upper ++ lower := hframes'
  obtain rfl : root = root' := hroot
  have hempty : rebindIn? name v ([] :: lower) = (rebindIn? name v lower).map ([] :: ·) := rfl
  simp only [Scope.assign, rebindIn?_append, hempty]
  cases hupper : rebindIn? name v upper with
  | some changed =>
    have hlength : changed.length = n := (length_rebindIn? hupper).trans hn
    exact ⟨⟨changed, lower, hlength, hlower, rfl, rfl⟩, rfl, hmade⟩
  | none =>
    cases hbelow : rebindIn? name v lower with
    | some changed =>
      exact ⟨⟨upper, changed, hn, hlower.rebindIn? hname hbelow, rfl, rfl⟩, rfl, hmade⟩
    | none => exact ⟨⟨upper, lower, hn, hlower, rfl, rfl⟩, rfl, hmade⟩

/-- An empty frame hides no name. -/
theorem memoryRelation_over (names : List String) (base : List Frame) (n : Nat) :
    MemoryRelation (fun _ => True) (· ∈ names) (Memory.Over names base n) where
  resolve h _ := by
    obtain ⟨upper, lower, -, -, hframes, hframes'⟩ := h.frames
    simp only [Scope.resolve?, Scope.lookup?, Scope.bindings, hframes, hframes', h.root,
      List.flatten_append, List.flatten_cons, List.nil_append]
  made h := h.made
  made_eq h _ := ⟨h.frames, h.root, rfl⟩
  assign h hname v := h.assign hname v

theorem Page.Over.withMemory {p p' : Page} {k : Nat} {m m' : Memory} (h : p.Over names base n p')
    (hm : m.Over names base k m') :
    Over names base k { p with memory := m } { p' with memory := m' } :=
  ⟨hm, h.registry, h.output⟩

theorem Memory.Over.push {m m' : Memory} (h : m.Over names base n m') (frame : Frame) :
    Over names base (n + 1) { m with scope := m.scope.push frame }
      { m' with scope := m'.scope.push frame } := by
  obtain ⟨⟨upper, lower, hn, hlower, hframes, hframes'⟩, hroot, hmade⟩ := h
  refine ⟨⟨frame :: upper, lower, congrArg (· + 1) hn, hlower, ?_, ?_⟩, hroot, hmade⟩
  · exact congrArg (frame :: ·) hframes
  · exact congrArg (frame :: ·) hframes'

theorem Memory.Over.pop {m m' : Memory} (h : m.Over names base (n + 1) m') :
    Over names base n { m with scope := m.scope.pop } { m' with scope := m'.scope.pop } := by
  obtain ⟨⟨upper, lower, hn, hlower, hframes, hframes'⟩, hroot, hmade⟩ := h
  obtain ⟨frame, upper, rfl⟩ := List.exists_cons_of_length_eq_add_one hn
  refine ⟨⟨upper, lower, Nat.succ.inj hn, hlower, ?_, ?_⟩, hroot, hmade⟩
  · exact congrArg List.tail hframes
  · exact congrArg List.tail hframes'

variable {P : RenderFault → Prop} {α : Type}

theorem alike_evaluating_over {evaluation : Evaluation α}
    (h : Alike (Memory.Over names base n) P evaluation evaluation) :
    Alike (Page.Over names base n) P (evaluating evaluation) (evaluating evaluation) :=
  .evaluating (fun hp => hp.memory) (fun hp hm => hp.withMemory hm) h

theorem alike_inFrame_over (frame : Frame) {body body' : Rendering α}
    (h : Alike (Page.Over names base (n + 1)) P body body') :
    Alike (Page.Over names base n) P (inFrame frame body) (inFrame frame body') :=
  .inFrame (fun hp => hp.withMemory (hp.memory.push frame)) (fun hq => hq.withMemory hq.memory.pop) h

/-- Under frames that take the place of all others, the pages are the same. -/
theorem alike_underFrames_over (frames : List Frame) (body : Rendering α) :
    Alike (Page.Over names base n) (fun _ => True) (underFrames frames body)
      (underFrames frames body) := by
  intro p p' hp
  obtain ⟨⟨⟨root, held⟩, made⟩, registry, output⟩ := p
  obtain ⟨⟨⟨root', held'⟩, made'⟩, registry', output'⟩ := p'
  obtain ⟨⟨hframes, hroot, hmade⟩, hregistry, houtput⟩ := hp
  obtain rfl : root = root' := hroot
  obtain rfl : made = made' := hmade
  obtain rfl : registry = registry' := hregistry
  obtain rfl : output = output' := houtput
  simp only [underFrames]
  cases body _ with
  | ok a q => exact .ok ⟨⟨hframes, rfl, rfl⟩, rfl, rfl⟩
  | error fault q => exact .error trivial ⟨⟨hframes, rfl, rfl⟩, rfl, rfl⟩

theorem alike_runSubtemplate_over {settings : Settings} {remaining : Nat} {name : String}
    {arguments : List Value} {span : Span} :
    Alike (Page.Over names base n) (fun _ => True)
      (runSubtemplate settings remaining name arguments span)
      (runSubtemplate settings remaining name arguments span) := by
  cases remaining with
  | zero =>
    rw [runSubtemplate]
    refine .get_bind fun p p' hp => ?_
    rw [hp.registry]
    cases p'.registry.lookup name with
    | none => exact .pure _
    | some s => exact .throw trivial
  | succ remaining =>
    rw [runSubtemplate]
    refine .get_bind fun p p' hp => ?_
    rw [hp.registry]
    cases p'.registry.lookup name with
    | none => exact .pure _
    | some s => exact .bind (alike_underFrames_over _ _) fun _ => .pure _

/-- All that a body may do in place comes out alike there and where the body is run. -/
theorem congruence_over {body : List Node} (hbody : Inlinable body) (settings : Settings)
    (remaining : Nat) (base : List Frame) :
    NodeCongruence settings true (runSubtemplate settings remaining)
      (runSubtemplate settings remaining) (· ∈ marksOf body) (fun _ => False) (fun _ => True)
      (Page.Over (assignedIn body) base) where
  registry hp := hp.registry
  write _ text := .modify fun _ _ hp => ⟨hp.memory, hp.registry, congrArg (· ++ text) hp.output⟩
  evaluate n _ hmark e he := alike_evaluating_over
    ((memoryRelation_over (assignedIn body) base n).evaluate e (soundFor_assignedIn hmark e he))
  evaluateGuarded n _ hmark e he := alike_evaluating_over
    ((memoryRelation_over (assignedIn body) base n).evaluateGuarded (soundFor_assignedIn hmark e he))
  evaluateAll n _ hmark := alike_evaluating_over
    ((memoryRelation_over (assignedIn body) base n).evaluateAll _ (soundFor_assignedIn hmark))
  declare _ _ _ hmark := nomatch hbody.binds _ hmark
  define _ _ _ _ hmark := nomatch hbody.binds _ hmark
  inFrame _ frame _ _ h := alike_inFrame_over frame h
  runs _ _ _ _ _ _ := alike_runSubtemplate_over
  dispatch hguard := hguard.elim

/-- A body that holds no guard comes out alike where it is run and in place. -/
theorem alike_body {body : List Node} (hbody : Inlinable body) (hguards : guardsIn true body = [])
    (settings : Settings) (remaining : Nat) (base : List Frame) :
    Alike (Page.Over (assignedIn body) base 0) (fun _ => True)
      (renderNodes settings (runSubtemplate settings remaining) body)
      (renderNodes settings (runSubtemplate settings remaining) body) := by
  refine (congruence_over hbody settings remaining base).renderNodes 0 body (fun _ hmark => hmark) ?_
  rw [hguards]
  nofun

end Over

/-! ### Definitions that a render comes to -/

/-- What a job comes to has its guards outside of definitions, if the job has and no sub-template that
has been met holds one. -/
theorem Comes.outside {settings : Settings} {goal job : Job} {met p : Point}
    (h : Comes settings goal met job p) (hjob : job.Outside) (hp : p.Guardless) : goal.Outside := by
  induction h with
  | here => exact hjob
  | node _ ih => exact ih (List.forall_mem_append.mp hjob).1 hp
  | later hfirst _ ih =>
    obtain ⟨hnode, hnodes⟩ := List.forall_mem_append.mp hjob
    exact ih hnodes (hp.of_node hnode hfirst)
  | choose _ ih | otherwise _ ih => exact ih hjob hp
  -- evaluating and rendering register nothing that holds a guard, so what is met later is guardless too
  | holds hcondition _ _ ih =>
    rw [Job.Outside, Job.guards_branches] at hjob
    exact ih (List.forall_mem_append.mp hjob).1 (hp.of_evaluating hcondition)
  | passes hcondition _ _ ih =>
    rw [Job.Outside, Job.guards_branches] at hjob
    exact ih (List.forall_mem_append.mp hjob).2 (hp.of_evaluating hcondition)
  | noItems hcollection _ _ ih =>
    have hq := hp.of_evaluating hcollection
    exact ih (List.forall_mem_append.mp hjob).2 hq
  | items hcollection _ _ ih =>
    exact ih (List.forall_mem_append.mp hjob).1 (hp.of_evaluating hcollection)
  | item _ ih => exact ih hjob hp
  | laterItem hbody _ _ ih =>
    have hq := (hp.push _).of_nodes hjob hbody
    exact ih hjob hq
  | run _ harguments _ ih => exact ih (List.forall_mem_nil _) (hp.of_evaluating harguments)
  | asked _ _ ih => exact ih (List.forall_mem_nil _) hp
  -- the body of a call is one that was registered
  | call hname _ _ ih =>
    have hbody := hp _ _ hname
    exact ih (by simp [Job.Outside, Job.guards, hbody]) hp

/-- No definition that a render of a template comes to holds a guard. -/
theorem guardsIn_eq_nil_of_comes {source : String} {c : Configuration} {t : Template}
    {settings : Settings} {context : Value} {key name : String} {parameters : List String}
    {body : List Node} {met : Point} (hcompile : Template.compile source c = .ok t)
    (hcomes : Comes settings (.node (.define name parameters body)) met (.nodes t.nodes)
      ⟨startPage context key, 0⟩) : guardsIn true body = [] := by
  obtain ⟨_, _, _, hstages⟩ := Template.stages hcompile
  have hnodes : (Job.nodes t.nodes).Outside := by
    rw [Job.Outside, Job.guards, guardsIn_nest hstages.nested]
    split <;> simp
  have hstart : Point.Guardless ⟨startPage context key, 0⟩ := by
    rintro _ _ ⟨⟩
  exact guardsIn_true_eq_nil (hcomes.outside hnodes hstart)

/-! ### Running and writing in place -/

/-- The page `p` that a run leaves, which began under some frames, and the page `p'` that its body leaves
in place.  The run leaves the frames as they were, and in place at most `names` are assigned to there;
all else is the same. -/
structure Page.Inlines (names : List String) (frames : List Frame) (p p' : Page) : Prop where
  output : p.output = p'.output
  registry : p.registry = p'.registry
  made : p.memory.made = p'.memory.made
  root : p.memory.scope.root = p'.memory.scope.root
  kept : p.memory.scope.frames = frames
  reassigned : Reassigned names frames p'.memory.scope.frames
  /-- A name stands for the same, but for one of `names` that the frames bind. -/
  visible : ∀ name, (name ∈ names → name ∉ frames.flatMap Frame.names) →
    p.memory.scope.lookup? name = p'.memory.scope.lookup? name

section Inlines

variable {names : List String} {frames : List Frame} {p p' : Page}

/-- The run takes its frames away. -/
theorem Page.Over.inlines (h : p.Over names frames 0 p') :
    Inlines names frames { p with memory.scope.frames := frames } p' := by
  obtain ⟨upper, lower, hupper, hlower, -, hframes⟩ := h.memory.frames
  obtain rfl := List.eq_nil_of_length_eq_zero hupper
  have hreassigned : Reassigned names frames p'.memory.scope.frames := by
    rw [hframes]
    exact hlower
  refine ⟨h.output, h.registry, h.memory.made, h.memory.root, rfl, hreassigned, fun name hname => ?_⟩
  simp only [Scope.lookup?, Scope.bindings, List.lookup_append, hreassigned.lookup_eq hname,
    h.memory.root]

theorem Page.Inlines.eq_of_unbound (h : p.Inlines names frames p')
    (hnames : ∀ x ∈ names, x ∉ frames.flatMap Frame.names) : p = p' := by
  have hframes : p.memory.scope.frames = p'.memory.scope.frames :=
    h.kept.trans (h.reassigned.eq_of_unbound hnames).symm
  obtain ⟨⟨⟨root, held⟩, made⟩, registry, output⟩ := p
  obtain ⟨⟨⟨root', held'⟩, made'⟩, registry', output'⟩ := p'
  obtain rfl : output = output' := h.output
  obtain rfl : registry = registry' := h.registry
  obtain rfl : made = made' := h.made
  obtain rfl : root = root' := h.root
  obtain rfl : held = held' := hframes
  rfl

theorem SameOutcome.eq_of_unbound {P : RenderFault → Prop} {r r' : EStateM.Result RenderFault Page Flow}
    (h : SameOutcome (Page.Inlines names frames) P r r')
    (hnames : ∀ x ∈ names, x ∉ frames.flatMap Frame.names) : r = r' := by
  cases h with
  | ok hpages => rw [hpages.eq_of_unbound hnames]
  | error _ hpages => rw [hpages.eq_of_unbound hnames]

end Inlines

section Runs

variable {settings : Settings} {d : Nat} {page : Page} {name : String} {span : Span}
  {body : List Node}

/-- Behind a definition its name is registered, with the frames that are there. -/
theorem lookup_of_define {parameters : List String} {flow : Flow} {p : Point}
    (h : Renders settings (.node (.define name parameters body)) p (.ok flow ⟨page, d⟩)) :
    page.registry.lookup name = some ⟨parameters, body, page.memory.scope.frames⟩ := by
  have hafter := h.eq_after
  rw [Job.perform, renderNode] at hafter
  cases hafter
  exact Bindings.lookup_put_self ..

/-- A node by itself is rendered like a list of nodes that holds no other. -/
theorem Renders.single {node : Node} {p : Point} {r : Outcome}
    (h : Renders settings (.node node) p r) (hr : ∀ flow q, r = .ok flow q → flow = .next) :
    Renders settings (.nodes [node]) p r := by
  cases r with
  | ok flow q =>
    obtain rfl := hr flow q rfl
    exact .cons h .nil
  | error fault q => exact .stop h nofun

theorem Outcome.eq_next_of_ending {r : Outcome} {back : Point → Point} {flow : Flow} {q : Point}
    (h : r.ending .next back = .ok flow q) : flow = .next := by
  cases r with
  | ok _ _ =>
    cases h
    rfl
  | error _ _ => cases h

/-- A run that does not reach the limit comes to what the body comes to under the frames that were
captured and an empty one, with one body more that is being rendered. -/
theorem after_run (hs : page.registry.lookup name = some ⟨[], body, page.memory.scope.frames⟩)
    (hlimit : ∀ callee limit place left, renderAt settings d [.run name [] span] page ≠
      .error (.callDepth callee limit place) left) :
    Point.after ⟨page, d⟩ (renderAt settings d [.run name [] span]) =
      Outcome.ending .next (Point.back page.memory.scope.frames)
        ((Point.enter ([] :: page.memory.scope.frames) ⟨page, d⟩).after
          (renderAt settings (d + 1) body)) := by
  have hd : d < maxDepth := by
    refine Nat.lt_of_not_le fun hdeep => ?_
    have hcall : Renders settings (.node (.run name [] span)) ⟨page, d⟩
        (.error (.callDepth name maxDepth span) ⟨page, d⟩) := .run hs rfl (.tooDeep hs hdeep)
    have hafter := (hcall.single nofun).eq_after
    exact hlimit _ _ _ _ (Point.after_eq_error_iff.mp hafter.symm).1
  have hentered : Renders settings (.nodes body)
      (Point.enter ([] :: page.memory.scope.frames) ⟨page, d⟩) _ := renders_renderAt settings body _
  have hcall : Renders settings (.node (.run name [] span)) ⟨page, d⟩ _ :=
    .run hs rfl (.call hs hd hentered)
  exact (hcall.single fun _ _ => Outcome.eq_next_of_ending).eq_after.symm

/-- A run right behind the definition comes to what the body comes to in place, but for assignments to
the frames. -/
theorem sameOutcome_run (hs : page.registry.lookup name = some ⟨[], body, page.memory.scope.frames⟩)
    (hbody : Inlinable body) (hguards : guardsIn true body = [])
    (hlimit : ∀ callee limit place left, renderAt settings d [.run name [] span] page ≠
      .error (.callDepth callee limit place) left) :
    SameOutcome (Page.Inlines (assignedIn body) page.memory.scope.frames) (fun _ => True)
      (renderAt settings d [.run name [] span] page) (renderAt settings d body page) := by
  have hrun := after_run hs hlimit
  let entered := Point.enter ([] :: page.memory.scope.frames) ⟨page, d⟩
  have hstart : Page.Over (assignedIn body) page.memory.scope.frames 0 entered.page page :=
    ⟨⟨⟨[], _, rfl, .refl _ _, rfl, rfl⟩, rfl, rfl⟩, rfl, rfl⟩
  have hbodies : SameOutcome _ _ (renderAt settings (d + 1) body entered.page)
      (renderAt settings (d + 1) body page) :=
    alike_body hbody hguards settings (maxDepth - (d + 1)) _ _ _ hstart
  generalize hcalled : renderAt settings (d + 1) body entered.page = called at hbodies
  generalize hplace : renderAt settings (d + 1) body page = place at hbodies
  -- in place one body less is being rendered, which makes a difference only at the limit
  cases hbodies with
  | @ok flow left left' hpages =>
    have hafter : entered.after (renderAt settings (d + 1) body) = .ok flow ⟨left, d + 1⟩ :=
      Point.after_eq_ok_iff.mpr ⟨hcalled, rfl⟩
    rw [hafter] at hrun
    obtain rfl : flow = .next :=
      goesOn_renderNodes hbody.leaves hguards page flow left' hplace
    rw [(Point.after_eq_ok_iff.mp hrun).1,
      renderAt_eq_of_le (Nat.le_succ d) (by rw [hplace]; nofun), hplace]
    exact .ok hpages.inlines
  | @error fault left left' _ hpages =>
    have hafter : entered.after (renderAt settings (d + 1) body) = .error fault ⟨left, d + 1⟩ :=
      Point.after_eq_error_iff.mpr ⟨hcalled, rfl⟩
    rw [hafter] at hrun
    have hfails := (Point.after_eq_error_iff.mp hrun).1
    have hwithin : ∀ callee limit place left, renderAt settings (d + 1) body page ≠
        .error (.callDepth callee limit place) left := by
      rw [hplace]
      rintro callee limit place left ⟨⟩
      exact hlimit _ _ _ _ hfails
    rw [hfails, renderAt_eq_of_le (Nat.le_succ d) hwithin, hplace]
    exact .error trivial hpages.inlines

end Runs

/-- **A sub-template that is run where it was defined does what its body does in place, on a copy of the
enclosing frames.**  Where a render of a template comes to a definition without parameters, whose body
declares nothing, defines nothing and leaves no loop but its own, a run right behind the definition
writes the same, ends with the same fault or with none, and leaves the same bindings in the root as the
body in place, unless it reaches the limit on nested runs.  The run leaves all enclosing frames as they
were; in place, only names that the body assigns to can stand for something else there.  So if none of
these is bound by an enclosing frame, as outside of all blocks, there is no difference at all. -/
theorem run_inlines {source : String} {c : Configuration} {t : Template} {host : Host}
    {context : Value} {key name : String} {body : List Node} {before page : Page} {d : Nat}
    {span : Span} (hcompile : Template.compile source c = .ok t)
    (hcomes : Comes (t.settings host context key) (.node (.define name [] body)) ⟨before, d⟩
      (.nodes t.nodes) ⟨startPage context key, 0⟩)
    (hdefine : Renders (t.settings host context key) (.node (.define name [] body)) ⟨before, d⟩
      (.ok .next ⟨page, d⟩))
    (hbody : Inlinable body)
    (hlimit : ∀ callee limit place left,
      renderAt (t.settings host context key) d [.run name [] span] page ≠
        .error (.callDepth callee limit place) left) :
    SameOutcome (Page.Inlines (assignedIn body) page.memory.scope.frames) (fun _ => True)
      (renderAt (t.settings host context key) d [.run name [] span] page)
      (renderAt (t.settings host context key) d body page) ∧
    ((∀ x ∈ assignedIn body, x ∉ page.memory.scope.frames.flatMap Frame.names) →
      renderAt (t.settings host context key) d [.run name [] span] page =
        renderAt (t.settings host context key) d body page) := by
  have hguards := guardsIn_eq_nil_of_comes hcompile hcomes
  have hsame := sameOutcome_run (lookup_of_define hdefine) hbody hguards hlimit
  exact ⟨hsame, hsame.eq_of_unbound⟩

/-- In the item of a loop: a definition whose body assigns to a name that only the root binds. -/
theorem run_inlines_in_loop :
    let source := "<%foreach (x in [\"a\"])%><%define f()%>!<%y = x%><%/define%><%run f()%><%/foreach%>"
    let body : List Node :=
      [.text "!", .evaluate (.assign ⟨41, 46⟩ "y" (.identifier ⟨45, 46⟩ "x"))]
    let t : Template := ⟨[.forEach "x" (.array ⟨16, 21⟩ [.literal ⟨17, 20⟩ (.text "a")])
      [.define "f" [] body, .dispatch, .run "f" [] ⟨61, 68⟩] []], true, "http:"⟩
    let settings := t.settings (fun _ _ _ => pure (.error "")) (.object (.given 0) []) ""
    let frames := [loopFrame "x" (.ofNat 0) (.text "a")]
    let page : Page := { memory := ⟨⟨[], frames⟩, 1⟩, registry := [("f", ⟨[], body, frames⟩)] }
    let left : Page := { page with memory.scope.root := [("y", .text "a")], output := "!" }
    Template.compile source {} = .ok t ∧
    renderAt settings 0 [.run "f" [] ⟨61, 68⟩] page = .ok .next left ∧
    renderAt settings 0 body page = .ok .next left := by
  intro source body t settings frames page left
  have hcompile : Template.compile source {} = .ok t := by
    simp only [source, t, body]
    rfl
  let before : Page := { memory := ⟨⟨[], frames⟩, 1⟩ }
  let run : Runner := fun _ _ _ => pure ()
  have hfirst : 0 < maxDepth := by decide
  have hcomes : Comes settings (.node (.define "f" [] body)) ⟨before, 0⟩ (.nodes t.nodes)
      ⟨startPage (.object (.given 0) []) "", 0⟩ :=
    .node (.items rfl nofun (.item (.node .here)))
  have hdefine : Renders settings (.node (.define "f" [] body)) ⟨before, 0⟩
      (.ok .next ⟨page, 0⟩) := .simple run rfl
  let inner : Point := ⟨{ left with memory.scope.frames := [] :: frames }, 1⟩
  have hbody : Renders settings (.nodes body) (Point.enter ([] :: frames) ⟨page, 0⟩)
      (.ok .next inner) := .cons (.simple run rfl) (.cons (.simple run rfl) .nil)
  have hcall : Renders settings (.call "f" [] ⟨61, 68⟩) ⟨page, 0⟩
      (Outcome.ending .next (Point.back frames) (.ok .next inner)) := .call rfl hfirst hbody
  have hnode : Renders settings (.nodes [.run "f" [] ⟨61, 68⟩]) ⟨page, 0⟩ (.ok .next ⟨left, 0⟩) :=
    .cons (.run rfl rfl hcall) .nil
  have hrun : renderAt settings 0 [.run "f" [] ⟨61, 68⟩] page = .ok .next left :=
    (Point.after_eq_ok_iff.mp hnode.eq_after.symm).1
  obtain ⟨-, hsame⟩ := run_inlines hcompile hcomes hdefine ⟨by decide, rfl⟩ (by rw [hrun]; nofun)
  exact ⟨hcompile, hrun, (hsame (by decide)).symm.trans hrun⟩

/-- In the item of a loop: a definition whose body assigns to the variable of the loop. -/
theorem run_keeps_loop_variable :
    let source :=
      "<%foreach (x in [\"a\"])%><%define f()%><%x = \"b\"%><%/define%><%run f()%><%=x%><%/foreach%>"
    let body : List Node := [.evaluate (.assign ⟨40, 47⟩ "x" (.literal ⟨44, 47⟩ (.text "b")))]
    let t : Template := ⟨[.forEach "x" (.array ⟨16, 21⟩ [.literal ⟨17, 20⟩ (.text "a")])
      [.define "f" [] body, .dispatch, .run "f" [] ⟨62, 69⟩,
        .output .default (.identifier ⟨74, 75⟩ "x")] []], true, "http:"⟩
    let settings := t.settings (fun _ _ _ => pure (.error "")) (.object (.given 0) []) ""
    let frames := [loopFrame "x" (.ofNat 0) (.text "a")]
    let before : Page := { memory := ⟨⟨[], frames⟩, 1⟩ }
    let page : Page := { before with registry := [("f", ⟨[], body, frames⟩)] }
    let inPlace : Page :=
      { page with memory.scope.frames := [loopFrame "x" (.ofNat 0) (.text "b")] }
    Template.compile source {} = .ok t ∧
    Comes settings (.node (.define "f" [] body)) ⟨before, 0⟩ (.nodes t.nodes)
      ⟨startPage (.object (.given 0) []) "", 0⟩ ∧
    Renders settings (.node (.define "f" [] body)) ⟨before, 0⟩ (.ok .next ⟨page, 0⟩) ∧
    Inlinable body ∧
    renderAt settings 0 [.run "f" [] ⟨62, 69⟩] page = .ok .next page ∧
    renderAt settings 0 body page = .ok .next inPlace ∧
    page.memory.scope.lookup? "x" = some (.text "a") ∧
    inPlace.memory.scope.lookup? "x" = some (.text "b") := by
  intro source body t settings frames before page inPlace
  have hcompile : Template.compile source {} = .ok t := by
    simp only [source, t, body]
    rfl
  let run : Runner := fun _ _ _ => pure ()
  have hfirst : 0 < maxDepth := by decide
  -- the body runs under a frame of its own over those that were captured, and these are the ones that
  -- it changes
  let inner : Point :=
    ⟨{ page with memory.scope.frames := [] :: inPlace.memory.scope.frames }, 1⟩
  have hbody : Renders settings (.nodes body) (Point.enter ([] :: frames) ⟨page, 0⟩)
      (.ok .next inner) := .cons (.simple run rfl) .nil
  have hcall : Renders settings (.call "f" [] ⟨62, 69⟩) ⟨page, 0⟩
      (Outcome.ending .next (Point.back frames) (.ok .next inner)) := .call rfl hfirst hbody
  have hrun : Renders settings (.nodes [.run "f" [] ⟨62, 69⟩]) ⟨page, 0⟩ (.ok .next ⟨page, 0⟩) :=
    .cons (.run rfl rfl hcall) .nil
  -- in place of the call the same body changes the frame of the item
  have hplace : Renders settings (.nodes body) ⟨page, 0⟩ (.ok .next ⟨inPlace, 0⟩) :=
    .cons (.simple run rfl) .nil
  exact ⟨hcompile, .node (.items rfl nofun (.item (.node .here))), .simple run rfl,
    ⟨by decide, rfl⟩, (Point.after_eq_ok_iff.mp hrun.eq_after.symm).1,
    (Point.after_eq_ok_iff.mp hplace.eq_after.symm).1, rfl, rfl⟩

end Stencil
