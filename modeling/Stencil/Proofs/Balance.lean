/-
Stencil/Proofs/Balance.lean

What a render leaves of the scope that it began with.  `Scope.Grows s s'`: the root
still binds the names that it bound, there are as many frames, and every frame has the
names that it had, in their order; only the innermost may have got new ones behind them.
Assignments do less than that: they leave the names of every frame as they are
(`Scope.Rebinds`).

A frame that is laid over the others for a block is the innermost there, so what grows
is that frame, and when it is taken away the others have the names that they had
(`Scope.Grows.pop`).  A call swaps all frames and puts them back as they were.

The main result, `renders_balanced`, says this of every job in the rules, which also
count the bodies of sub-templates that are being rendered.
-/
import Stencil.Proofs.Maintaining
import Stencil.Proofs.Outcome

namespace Stencil

open Rendering

/-! ### Scopes that grow -/

/-- There are as many frames, with the names that they had, in their order. -/
structure Scope.Rebinds (s s' : Scope) : Prop where
  root : s.root.map Prod.fst <+: s'.root.map Prod.fst
  frames : s'.frames.map Frame.names = s.frames.map Frame.names

/-- There are as many frames, with the names that they had, in their order, and the innermost may have
new ones behind them. -/
inductive FramesGrow : List Frame → List Frame → Prop
  | none : FramesGrow [] []
  | innermost {frame frame' : Frame} {outer outer' : List Frame} :
      Frame.names frame <+: Frame.names frame' → outer'.map Frame.names = outer.map Frame.names →
      FramesGrow (frame :: outer) (frame' :: outer')

/-- No name is lost, neither from the root nor from a frame, and only the root and the innermost frame
get new ones. -/
structure Scope.Grows (s s' : Scope) : Prop where
  root : s.root.map Prod.fst <+: s'.root.map Prod.fst
  frames : FramesGrow s.frames s'.frames

namespace Scope

variable {s s' s'' : Scope}

theorem Rebinds.refl (s : Scope) : s.Rebinds s := ⟨List.prefix_rfl, rfl⟩

theorem Rebinds.trans (h : s.Rebinds s') (h' : s'.Rebinds s'') : s.Rebinds s'' :=
  ⟨h.root.trans h'.root, h'.frames.trans h.frames⟩

theorem Rebinds.assign (s : Scope) (name : String) (v : Value) : s.Rebinds (s.assign name v) := by
  rw [Scope.assign]
  split
  · next frames hframes => exact ⟨List.prefix_rfl, names_rebindIn? hframes⟩
  · exact ⟨Bindings.keys_put name v s.root, rfl⟩

theorem Rebinds.grows (h : s.Rebinds s') : s.Grows s' := by
  refine ⟨h.root, ?_⟩
  have hframes := h.frames
  generalize s.frames = frames, s'.frames = frames' at hframes
  cases frames with
  | nil =>
    rw [List.map_nil, List.map_eq_nil_iff] at hframes
    subst hframes
    exact .none
  | cons frame outer =>
    cases frames' with
    | nil => cases hframes
    | cons frame' outer' =>
      obtain ⟨hframe, houter⟩ := List.cons.inj hframes
      exact .innermost (hframe ▸ List.prefix_rfl) houter

theorem Grows.refl (s : Scope) : s.Grows s := (Rebinds.refl s).grows

theorem Grows.trans (h : s.Grows s') (h' : s'.Grows s'') : s.Grows s'' := by
  refine ⟨h.root.trans h'.root, ?_⟩
  have hframes := h.frames
  have hframes' := h'.frames
  generalize s.frames = frames, s'.frames = frames', s''.frames = frames'' at hframes hframes'
  cases hframes with
  | none => exact hframes'
  | innermost hframe houter =>
    cases hframes' with
    | innermost hframe' houter' => exact .innermost (hframe.trans hframe') (houter'.trans houter)

theorem Grows.declare (s : Scope) (name : String) (v : Value) : s.Grows (s.declare name v) := by
  obtain ⟨root, frames⟩ := s
  cases frames with
  | nil => exact ⟨Bindings.keys_put name v root, .none⟩
  | cons frame outer =>
    refine ⟨List.prefix_rfl, .innermost ?_ rfl⟩
    simp [Frame.names]

/-- What grew under a frame has the names that it had when the frame is taken away. -/
theorem Grows.pop {frame : Frame} (h : (s.push frame).Grows s') : s.Rebinds s'.pop := by
  refine ⟨h.root, ?_⟩
  have hframes := h.frames
  rw [Scope.push] at hframes
  rw [Scope.pop]
  generalize s'.frames = frames at hframes ⊢
  cases hframes with
  | innermost _ houter => exact houter

end Scope

/-! ### Evaluations -/

/-- Evaluations leave the names of all frames as they are. -/
theorem rebinds_invariant (s : Scope) : MemoryInvariant fun m => s.Rebinds m.scope where
  made _ _ h := h
  assign m name v h := h.trans (.assign m.scope name v)

section Evaluations

variable {α : Type} {evaluation : Evaluation α} {p q : Point}
  (hevaluation : ∀ s : Scope, Maintains (fun m => s.Rebinds m.scope) evaluation)
include hevaluation

theorem Point.rebinds_of_ok {a : α} (h : p.after (evaluating evaluation) = .ok a q) :
    p.scope.Rebinds q.scope := by
  obtain ⟨memory, hm, rfl⟩ := exists_of_evaluating_ok h
  exact (hevaluation p.scope).of_ok hm (.refl _)

theorem Point.rebinds_of_error {fault : RenderFault}
    (h : p.after (evaluating evaluation) = .error fault q) : p.scope.Rebinds q.scope := by
  obtain ⟨memory, hm, rfl⟩ := exists_of_evaluating_error h
  exact (hevaluation p.scope).of_error hm (.refl _)

/-- What follows on an evaluation begins with the names that were there. -/
theorem Point.grows_of_bind {f : α → Rendering Flow}
    (hf : ∀ a (q : Point), q.scope.Grows (Outcome.point (q.after (f a))).scope) :
    p.scope.Grows (Outcome.point (p.after (evaluating evaluation >>= f))).scope := by
  cases hm : p.after (evaluating evaluation) with
  | ok a left =>
    rw [after_bind_ok hm]
    exact (rebinds_of_ok hevaluation hm).grows.trans (hf a left)
  | error fault left =>
    rw [after_bind_error hm]
    exact (rebinds_of_error hevaluation hm).grows

end Evaluations

/-! ### Jobs -/

section Jobs

variable {settings : Settings} {p : Point}

theorem grows_of_isSimple {node : Node} (h : node.isSimple = true) (run : Runner) :
    p.scope.Grows (Outcome.point (p.after (renderNode settings run node))).scope := by
  cases node with
  | text text => exact .refl _
  | leave => exact .refl _
  | define name parameters body => exact .refl _
  | output form value =>
    rw [renderNode]
    refine Point.grows_of_bind (fun s => maintains_evaluateGuarded (rebinds_invariant s) value) ?_
    intro v q
    dsimp only
    split <;> exact .refl _
  | declare name value =>
    cases value with
    | none => exact .declare _ name .undefined
    | some e =>
      rw [renderNode]
      refine Point.grows_of_bind (fun s => maintains_evaluate (rebinds_invariant s) e) ?_
      exact fun v q => .declare _ name v
  | evaluate e =>
    rw [renderNode]
    refine Point.grows_of_bind (fun s => maintains_evaluate (rebinds_invariant s) e) ?_
    exact fun v q => .refl _
  | choose | forEach | run | dispatch => cases h

theorem Outcome.point_ending (r : Outcome) (flow : Flow) (back : Point → Point) :
    (r.ending flow back).point = back r.point := by
  cases r <;> rfl

/-- No job loses a name. -/
theorem Renders.grows {job : Job} {r : Outcome} (h : Renders settings job p r) :
    p.scope.Grows r.point.scope := by
  -- by induction on the derivation: a name may be added at every step, and none is taken away again but
  -- with its frame
  induction h with
  | simple run hsimple => exact grows_of_isSimple hsimple run
  | nil | done | unknown | notAsked | nothing | tooDeep => exact .refl _
  | cons _ _ ihnode ihnodes => exact ihnode.trans ihnodes
  | stop _ _ ih | choose _ ih | otherwise _ ih => exact ih
  -- an evaluation binds no new name, and what its fault leaves is kept
  | @conditionFails condition _ _ _ _ _ _ hcondition =>
    exact (Point.rebinds_of_error
      (fun s => maintains_evaluate (rebinds_invariant s) condition) hcondition).grows
  | @holds condition _ _ _ _ _ _ _ hcondition _ _ ih
  | @passes condition _ _ _ _ _ _ _ hcondition _ _ ih =>
    have hevaluated := Point.rebinds_of_ok
      (fun s => maintains_evaluate (rebinds_invariant s) condition) hcondition
    exact hevaluated.grows.trans ih
  | @collectionFails _ collection _ _ _ _ _ hcollection =>
    exact (Point.rebinds_of_error
      (fun s => maintains_evaluateGuarded (rebinds_invariant s) collection) hcollection).grows
  | @noItems _ collection _ _ _ _ _ _ hcollection _ _ ih =>
    have hevaluated := Point.rebinds_of_ok
      (fun s => maintains_evaluateGuarded (rebinds_invariant s) collection) hcollection
    rw [Outcome.point_ending]
    exact (hevaluated.trans ih.pop).grows
  | @items _ collection _ _ _ _ _ _ hcollection _ _ ih =>
    have hevaluated := Point.rebinds_of_ok
      (fun s => maintains_evaluateGuarded (rebinds_invariant s) collection) hcollection
    exact hevaluated.grows.trans ih
  -- the frame of an item is on top of the others, which are those from before
  | item _ _ _ ihbody ihitems => exact ihbody.pop.grows.trans ihitems
  | lastItem _ _ ih =>
    rw [Outcome.point_ending]
    exact ih.pop.grows
  | @argumentFails _ arguments _ _ _ _ _ _ harguments =>
    exact (Point.rebinds_of_error
      (fun s => maintains_evaluateAll (rebinds_invariant s) arguments) harguments).grows
  | @run _ arguments _ _ _ _ _ _ _ harguments _ ih =>
    have hevaluated := Point.rebinds_of_ok
      (fun s => maintains_evaluateAll (rebinds_invariant s) arguments) harguments
    exact hevaluated.grows.trans ih
  | asked _ _ ih =>
    rw [Outcome.point_ending]
    exact ih
  | call _ _ _ ih =>
    -- the body may bind names in the root; the frames are put back
    rw [Outcome.point_ending]
    exact Scope.Rebinds.grows ⟨ih.root, rfl⟩

/-- A call leaves the frames of its caller as they are, names and values. -/
theorem Renders.frames_of_call {name : String} {arguments : List Value} {span : Span} {r : Outcome}
    (h : Renders settings (.call name arguments span) p r) :
    r.point.scope.frames = p.scope.frames := by
  cases h with
  | nothing | tooDeep => rfl
  | call =>
    rw [Outcome.point_ending]
    rfl

end Jobs

/-- **Rendering keeps the scope balanced on every path.**  Whether nodes let what stands behind them come
next, leave a loop or a sub-template, finish the render or stop with a fault: as many bodies of
sub-templates are being rendered as before, no name is lost from the root, and there are as many frames as
before, with the names that they had in their order, the innermost perhaps with new ones behind them.  A
call, from a `run` directive or from the guard, leaves the frames of its caller as they are. -/
theorem renders_balanced (settings : Settings) (p : Point) :
    (∀ job r, Renders settings job p r ↔ r = p.after (job.perform settings (p.runner settings))) ∧
    (∀ nodes r, Renders settings (.nodes nodes) p r →
      r.point.depth = p.depth ∧ p.scope.Grows r.point.scope) ∧
    (∀ name arguments span r, Renders settings (.call name arguments span) p r →
      r.point.depth = p.depth ∧ r.point.scope.frames = p.scope.frames) :=
  ⟨fun job r => renders_iff job p r, fun _ _ h => ⟨h.depth_eq, h.grows⟩,
    fun _ _ _ _ h => ⟨h.depth_eq, h.frames_of_call⟩⟩

/-- A sub-template that declares a name, run under a frame. -/
theorem renders_balanced_run :
    let settings : Settings := ⟨⟨fun _ _ _ => pure (.error ""), "http:"⟩, true, none⟩
    let page : Page := { memory := { scope := { root := [], frames := [[("x", .null)]] } },
                         registry := [("s", ⟨[], [.declare "y" none], []⟩)] }
    let nodes : List Node := [.declare "z" none, .run "s" [] ⟨2, 9⟩]
    ∃ left, renderAt settings 0 nodes page = .ok .next left ∧
      left.memory.scope.frames = [[("z", .undefined), ("x", .null)]] ∧
      page.memory.scope.Grows left.memory.scope := by
  intro settings page nodes
  obtain ⟨hrules, hnodes, -⟩ := renders_balanced settings ⟨page, 0⟩
  let run : Runner := fun _ _ _ => pure ()
  let declared : Page := { page with memory.scope.frames := [[("z", .undefined), ("x", .null)]] }
  let inner : Point := ⟨{ page with memory.scope.frames := [[("y", .undefined)]] }, 1⟩
  have hbody : Renders settings (.nodes [.declare "y" none]) (Point.enter [[]] ⟨declared, 0⟩)
      (.ok .next inner) := .cons (.simple run rfl) .nil
  have hcall : Renders settings (.call "s" [] ⟨2, 9⟩) ⟨declared, 0⟩
      (Outcome.ending .next (Point.back declared.memory.scope.frames) (.ok .next inner)) :=
    .call rfl (by decide) hbody
  have hrenders : Renders settings (.nodes nodes) ⟨page, 0⟩ (.ok .next ⟨declared, 0⟩) :=
    .cons (.simple run rfl) (.cons (.run rfl rfl hcall) .nil)
  exact ⟨declared, (Point.after_eq_ok_iff.mp ((hrules _ _).mp hrenders).symm).1, rfl,
    (hnodes _ _ hrenders).2⟩

end Stencil
