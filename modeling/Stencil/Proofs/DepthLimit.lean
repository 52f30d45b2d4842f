/-
Stencil/Proofs/DepthLimit.lean

What the limit on nested runs does.  A render that does not run into the limit does
not see it: where fewer bodies are being rendered already, the same job has the same
course (`Renders.atDepth`, by induction on the rules, since a lower count only makes
more calls possible).  A render that does run into it has come to a call of a
registered sub-template while `maxDepth` bodies were being rendered
(`Renders.comes_of_callDepth`); no evaluation has such a fault.

The main result, `depth_limit`, puts these together with the fact that every render
has an outcome.
-/
import Stencil.Proofs.Agreement
import Stencil.Proofs.Outcome

namespace Stencil

open Rendering

/-! ### Lower counts -/

/-- The point where another number of bodies is being rendered. -/
def Point.atDepth (depth : Nat) (p : Point) : Point := { p with depth }

/-- The outcome at another count. -/
def Outcome.atDepth (depth : Nat) : Outcome → Outcome
  | .ok flow p => .ok flow (p.atDepth depth)
  | .error fault p => .error fault (p.atDepth depth)

/-- The job ended with a call that was nested too deep. -/
def Outcome.TooDeep (r : Outcome) : Prop :=
  ∃ name limit span p, r = .error (.callDepth name limit span) p

section AtDepth

variable {p q : Point} {d : Nat}

theorem Point.after_atDepth (p : Point) (d : Nat) (m : Rendering Flow) :
    (p.atDepth d).after m = Outcome.atDepth d (p.after m) := by
  simp only [after, atDepth]
  cases m p.page <;> rfl

theorem Point.after_atDepth_ok {α : Type} {m : Rendering α} {a : α} (h : p.after m = .ok a q) :
    (p.atDepth d).after m = .ok a (q.atDepth d) := by
  simp only [after, atDepth] at h ⊢
  cases hm : m p.page <;> rw [hm] at h <;> cases h
  rfl

theorem Point.after_atDepth_error {α : Type} {m : Rendering α} {fault : RenderFault}
    (h : p.after m = .error fault q) : (p.atDepth d).after m = .error fault (q.atDepth d) := by
  simp only [after, atDepth] at h ⊢
  cases hm : m p.page <;> rw [hm] at h <;> cases h
  rfl

theorem Point.le_depth_of_ok {α : Type} {m : Rendering α} {a : α} (h : p.after m = .ok a q)
    (hd : d ≤ p.depth) : d ≤ q.depth := by
  rw [depth_of_ok h]
  exact hd

theorem Outcome.not_tooDeep_of_ending {r : Outcome} {flow : Flow} {back : Point → Point}
    (h : ¬ (r.ending flow back).TooDeep) : ¬ r.TooDeep := by
  rintro ⟨name, limit, span, p, rfl⟩
  exact h ⟨name, limit, span, back p, rfl⟩

theorem Outcome.not_tooDeep_ok (flow : Flow) (p : Point) : ¬ Outcome.TooDeep (.ok flow p) := by
  rintro ⟨_, _, _, _, ⟨⟩⟩

theorem Outcome.atDepth_ending (r : Outcome) (flow : Flow) (back : Point → Point) (d d' : Nat)
    (h : ∀ p : Point, back (p.atDepth d') = (back p).atDepth d) :
    (r.ending flow back).atDepth d = (r.atDepth d').ending flow back := by
  cases r with
  | ok _ p => exact congrArg (EStateM.Result.ok flow) (h p).symm
  | error fault p => exact congrArg (EStateM.Result.error fault) (h p).symm

end AtDepth

/-- Where fewer bodies are being rendered, a job that does not run into the limit has the same
outcome. -/
theorem Renders.atDepth {settings : Settings} {job : Job} {p : Point} {r : Outcome}
    (h : Renders settings job p r) (hr : ¬ r.TooDeep) {d : Nat} (hd : d ≤ p.depth) :
    Renders settings job (p.atDepth d) (r.atDepth d) := by
  -- by induction on the derivation, for every smaller depth: only the rules for calls look at the depth
  induction h generalizing d with
  | simple run hsimple =>
    rw [← Point.after_atDepth]
    exact .simple run hsimple
  | nil => exact .nil
  | cons hnode hnodes ihnode ihnodes =>
    have hnext := ihnode (Outcome.not_tooDeep_ok _ _) hd
    exact .cons hnext (ihnodes hr (Nat.le_trans hd (Nat.le_of_eq hnode.depth_eq.symm)))
  -- the depth of what is left does not matter to how a row stops
  | @stop _ _ _ r hnode hstop ih =>
    refine .stop (ih hr hd) fun q hq => ?_
    cases r with
    | ok flow left =>
      cases hq
      exact hstop left rfl
    | error fault left => cases hq
  | choose _ ih => exact .choose (ih hr hd)
  | otherwise _ ih => exact .otherwise (ih hr hd)
  | conditionFails hcondition => exact .conditionFails (Point.after_atDepth_error hcondition)
  | holds hcondition hv _ ih =>
    -- an evaluation leaves the depth as it is, so the smaller one stays smaller
    have hq := Point.le_depth_of_ok hcondition hd
    exact .holds (Point.after_atDepth_ok hcondition) hv (ih hr hq)
  | passes hcondition hv _ ih =>
    have hq := Point.le_depth_of_ok hcondition hd
    exact .passes (Point.after_atDepth_ok hcondition) hv (ih hr hq)
  | collectionFails hcollection => exact .collectionFails (Point.after_atDepth_error hcollection)
  | noItems hcollection hempty _ ih =>
    have hq := Point.le_depth_of_ok hcollection hd
    rw [Outcome.atDepth_ending _ .next Point.pop d d fun _ => rfl]
    exact .noItems (Point.after_atDepth_ok hcollection) hempty
      (ih (Outcome.not_tooDeep_of_ending hr) hq)
  | items hcollection hentries _ ih =>
    have hq := Point.le_depth_of_ok hcollection hd
    exact .items (Point.after_atDepth_ok hcollection) hentries (ih hr hq)
  | done => exact .done
  | item hbody hflow _ ihbody ihitems =>
    have hround := ihbody (Outcome.not_tooDeep_ok _ _) hd
    exact .item hround hflow (ihitems hr (Nat.le_trans hd (Nat.le_of_eq hbody.depth_eq.symm)))
  | @lastItem _ _ _ _ _ _ r hbody hlast ih =>
    rw [Outcome.atDepth_ending _ .next Point.pop d d fun _ => rfl]
    refine .lastItem (ih (Outcome.not_tooDeep_of_ending hr) hd) fun flow q hq => ?_
    cases r with
    | ok other left =>
      cases hq
      exact hlast flow left rfl
    | error fault left => cases hq
  | unknown hname => exact .unknown hname
  | argumentFails hname harguments =>
    exact .argumentFails hname (Point.after_atDepth_error harguments)
  | run hname harguments _ ih =>
    have hq := Point.le_depth_of_ok harguments hd
    exact .run hname (Point.after_atDepth_ok harguments) (ih hr hq)
  | notAsked hasked => exact .notAsked hasked
  | asked hasked _ ih =>
    rw [Outcome.atDepth_ending _ .finish id d d fun _ => rfl]
    exact .asked hasked (ih (Outcome.not_tooDeep_of_ending hr) hd)
  | nothing hname => exact .nothing hname
  -- this is the outcome that is excluded
  | tooDeep hname hdepth => exact absurd ⟨_, _, _, _, rfl⟩ hr
  | call hname hdepth _ ih =>
    -- the body is rendered at one more, there and here
    rw [Outcome.atDepth_ending _ .next (Point.back _) d (d + 1) fun _ => rfl]
    exact .call hname (Nat.lt_of_le_of_lt hd hdepth)
      (ih (Outcome.not_tooDeep_of_ending hr) (Nat.succ_le_succ hd))

/-- Nodes that do not run into the limit end on the same page where fewer bodies are being rendered. -/
theorem renderAt_eq_of_le {settings : Settings} {nodes : List Node} {page : Page} {d d' : Nat}
    (hd : d' ≤ d) (hlimit : ∀ name limit span left,
      renderAt settings d nodes page ≠ .error (.callDepth name limit span) left) :
    renderAt settings d' nodes page = renderAt settings d nodes page := by
  have hrenders := renders_renderAt settings nodes ⟨page, d⟩
  have hnot : ¬ Outcome.TooDeep (Point.after ⟨page, d⟩ (renderAt settings d nodes)) := by
    rintro ⟨name, limit, span, q, hq⟩
    exact hlimit name limit span q.page (Point.after_eq_error_iff.mp hq).1
  have hlower := (hrenders.atDepth hnot hd).eq_after
  rw [← Point.after_atDepth] at hlower
  exact (Point.eq_of_after_eq hlower).symm

/-! ### Where the limit is reached -/

/-- Sub-templates were nested too deep. -/
def RenderFault.isCallDepth : RenderFault → Bool
  | .callDepth .. => true
  | _ => false

section Evaluations

variable {services : Services} {fault : RenderFault}

theorem SameOutcome.fault_of_error {σ α : Type} {R : σ → σ → Prop} {P : RenderFault → Prop}
    {r r' : EStateM.Result RenderFault σ α} {s : σ} (h : SameOutcome R P r r')
    (hr : r = .error fault s) : P fault := by
  cases h with
  | ok _ => cases hr
  | error hfault _ =>
    cases hr
    exact hfault

/-- Every expression is sound where all names are seen and no fault is one of a call. -/
theorem Expression.sound_not_callDepth (e : Expression) :
    e.Sound (fun _ => True) (fun fault => fault.isCallDepth = false) :=
  ⟨fun _ _ _ => rfl, fun _ _ _ => ⟨trivial, rfl⟩⟩

/-- No evaluation runs a sub-template. -/
theorem Point.not_callDepth_of_evaluating {α : Type} {evaluation : Evaluation α} {p q : Point}
    (halike : Alike (Memory.AgreeOn fun _ => True) (fun fault => fault.isCallDepth = false)
      evaluation evaluation)
    (h : p.after (evaluating evaluation) = .error fault q) : fault.isCallDepth = false := by
  obtain ⟨memory, hevaluation, -⟩ := exists_of_evaluating_error h
  exact (halike p.page.memory p.page.memory (.refl _)).fault_of_error hevaluation

theorem Point.not_callDepth_of_bind {α β : Type} {evaluation : Evaluation α}
    {f : α → Rendering β} {p q : Point}
    (halike : Alike (Memory.AgreeOn fun _ => True) (fun fault => fault.isCallDepth = false)
      evaluation evaluation)
    (hf : ∀ a left, Point.after left (f a) = .error fault q → fault.isCallDepth = false)
    (h : p.after (evaluating evaluation >>= f) = .error fault q) : fault.isCallDepth = false := by
  cases hevaluation : p.after (evaluating evaluation) with
  | ok a left =>
    rw [after_bind_ok hevaluation] at h
    exact hf a left h
  | error other left =>
    rw [after_bind_error hevaluation] at h
    cases h
    exact not_callDepth_of_evaluating halike hevaluation

end Evaluations

/-- The limit is `maxDepth`, and on its course the job comes to a call of a registered sub-template while
so many bodies, or more, are being rendered. -/
def CallsTooDeep (settings : Settings) (name : String) (limit : Nat) (span : Span) (job : Job)
    (p : Point) : Prop :=
  limit = maxDepth ∧ ∃ arguments met s, Comes settings (.call name arguments span) met job p ∧
    maxDepth ≤ met.depth ∧ met.page.registry.lookup name = some s

section Limit

variable {settings : Settings} {name : String} {limit : Nat} {span : Span} {job : Job} {p : Point}

theorem CallsTooDeep.of_part {part : Job} {q : Point}
    (h : CallsTooDeep settings name limit span part q)
    (hpart : ∀ goal met, Comes settings goal met part q → Comes settings goal met job p) :
    CallsTooDeep settings name limit span job p := by
  obtain ⟨hlimit, arguments, met, s, hcomes, hmet⟩ := h
  exact ⟨hlimit, arguments, met, s, hpart _ _ hcomes, hmet⟩

theorem Outcome.eq_error_of_ending {r : Outcome} {flow : Flow} {back : Point → Point}
    {fault : RenderFault} {left : Point} (h : r.ending flow back = .error fault left) :
    ∃ q, r = .error fault q := by
  cases r with
  | ok _ _ => cases h
  | error other q =>
    cases h
    exact ⟨q, rfl⟩

/-- A node that renders no others runs no sub-template. -/
theorem not_callDepth_of_isSimple {node : Node} (h : node.isSimple = true) {run : Runner}
    {fault : RenderFault} {q : Point} (hr : p.after (renderNode settings run node) = .error fault q) :
    fault.isCallDepth = false := by
  cases node with
  | text => cases hr
  | leave => cases hr
  | define => cases hr
  | output form value =>
    rw [renderNode] at hr
    refine Point.not_callDepth_of_bind (alike_evaluateGuarded value.sound_not_callDepth) ?_ hr
    intro v left hwrite
    dsimp only at hwrite
    split at hwrite <;> cases hwrite
  | declare declared value =>
    cases value with
    | none => cases hr
    | some e =>
      rw [renderNode] at hr
      refine Point.not_callDepth_of_bind (alike_evaluate e e.sound_not_callDepth) ?_ hr
      exact fun v left hdeclare => nomatch hdeclare
  | evaluate e =>
    rw [renderNode] at hr
    refine Point.not_callDepth_of_bind (alike_evaluate e e.sound_not_callDepth) ?_ hr
    exact fun v left hnext => nomatch hnext
  | choose | forEach | run | dispatch => cases h

/-- A job runs into the limit only where it comes to such a call. -/
theorem Renders.comes_of_callDepth {r : Outcome} (h : Renders settings job p r) :
    ∀ left, r = .error (.callDepth name limit span) left →
      CallsTooDeep settings name limit span job p := by
  -- by induction on the derivation: a part of the job has run into the limit, and the job comes to that
  -- part
  induction h with
  | simple run hsimple =>
    intro left hr
    cases not_callDepth_of_isSimple hsimple hr
  | nil | done | unknown | notAsked | nothing => nofun
  | cons hnode _ _ ih =>
    intro left hr
    exact (ih left hr).of_part fun _ _ => .later hnode
  | stop _ _ ih =>
    intro left hr
    exact (ih left hr).of_part fun _ _ => .node
  | choose _ ih =>
    intro left hr
    exact (ih left hr).of_part fun _ _ => .choose
  | otherwise _ ih =>
    intro left hr
    exact (ih left hr).of_part fun _ _ => .otherwise
  -- the fault of an expression is never that of a call
  | @conditionFails condition _ _ _ _ _ _ hcondition =>
    rintro left ⟨⟩
    cases Point.not_callDepth_of_evaluating (alike_evaluate condition condition.sound_not_callDepth)
      hcondition
  | holds hcondition hv _ ih =>
    intro left hr
    exact (ih left hr).of_part fun _ _ => .holds hcondition hv
  | passes hcondition hv _ ih =>
    intro left hr
    exact (ih left hr).of_part fun _ _ => .passes hcondition hv
  | @collectionFails _ collection _ _ _ _ _ hcollection =>
    rintro left ⟨⟩
    cases Point.not_callDepth_of_evaluating (alike_evaluateGuarded collection.sound_not_callDepth)
      hcollection
  | noItems hcollection hempty _ ih =>
    intro left hr
    -- how the part ended is forgotten where it stands in a frame, but not its fault
    obtain ⟨q, hq⟩ := Outcome.eq_error_of_ending hr
    exact (ih q hq).of_part fun _ _ => .noItems hcollection hempty
  | items hcollection hentries _ ih =>
    intro left hr
    exact (ih left hr).of_part fun _ _ => .items hcollection hentries
  | item hbody hflow _ _ ih =>
    intro left hr
    exact (ih left hr).of_part fun _ _ => .laterItem hbody hflow
  | lastItem _ _ ih =>
    intro left hr
    obtain ⟨q, hq⟩ := Outcome.eq_error_of_ending hr
    exact (ih q hq).of_part fun _ _ => .item
  | @argumentFails _ arguments _ _ _ _ _ _ harguments =>
    rintro left ⟨⟩
    cases Point.not_callDepth_of_evaluating
      (alike_evaluateAll arguments fun e _ => e.sound_not_callDepth) harguments
  | run hname harguments _ ih =>
    intro left hr
    exact (ih left hr).of_part fun _ _ => .run hname harguments
  | asked hasked _ ih =>
    intro left hr
    obtain ⟨q, hq⟩ := Outcome.eq_error_of_ending hr
    exact (ih q hq).of_part fun _ _ => .asked hasked
  -- the only rule that gives this fault
  | tooDeep hname hdepth =>
    rintro left ⟨⟩
    exact ⟨rfl, _, _, _, .here, hdepth, hname⟩
  | call hname hdepth _ ih =>
    intro left hr
    obtain ⟨q, hq⟩ := Outcome.eq_error_of_ending hr
    exact (ih q hq).of_part fun _ _ => .call hname hdepth

/-- What a job comes to stands no deeper than the limit. -/
theorem Comes.depth_le {goal : Job} {met : Point} (h : Comes settings goal met job p)
    (hp : p.depth ≤ maxDepth) : met.depth ≤ maxDepth := by
  induction h with
  | here => exact hp
  | node _ ih | choose _ ih | otherwise _ ih | item _ ih | asked _ _ ih => exact ih hp
  | later hnode _ ih =>
    rw [← hnode.depth_eq] at hp
    exact ih hp
  | holds hvalue _ _ ih | passes hvalue _ _ ih | noItems hvalue _ _ ih | items hvalue _ _ ih
  | run _ hvalue _ ih =>
    rw [← Point.depth_of_ok hvalue] at hp
    exact ih hp
  | laterItem hbody _ _ ih =>
    have hq := hbody.depth_eq
    exact ih (Nat.le_trans (Nat.le_of_eq hq) hp)
  | call _ hdepth _ ih => exact ih hdepth

end Limit

/-- **The limit cuts renders off and never changes them, and every render ends.**  Where nodes end with
anything else than a fault of the limit, they end in the same way, on the same page, where fewer bodies of
sub-templates are being rendered.  They end with a fault of the limit exactly if they come to a call of a
sub-template that is registered, while `maxDepth` bodies are being rendered.  And by rules that set no
bound to the course of a render, there is exactly one outcome: the one that the renderer computes. -/
theorem depth_limit (settings : Settings) (nodes : List Node) (page : Page) :
    (∀ d d', d' ≤ d → d ≤ maxDepth →
      (∀ name limit span left,
        renderAt settings d nodes page ≠ .error (.callDepth name limit span) left) →
      renderAt settings d' nodes page = renderAt settings d nodes page) ∧
    (∀ d, d ≤ maxDepth → ∀ name limit span,
      (∃ left, renderAt settings d nodes page = .error (.callDepth name limit span) left) ↔
        limit = maxDepth ∧ ∃ arguments met s,
          Comes settings (.call name arguments span) ⟨met, maxDepth⟩ (.nodes nodes) ⟨page, d⟩ ∧
          met.registry.lookup name = some s) ∧
    ∀ d r, Renders settings (.nodes nodes) ⟨page, d⟩ r ↔
      r = Point.after ⟨page, d⟩ (renderAt settings d nodes) := by
  refine ⟨fun d d' hd _ hlimit => renderAt_eq_of_le hd hlimit, ?_, fun d r => renders_iff _ _ r⟩
  intro d hd name limit span
  constructor
  · rintro ⟨left, hleft⟩
    have hrenders := renders_renderAt settings nodes ⟨page, d⟩
    have hafter : Point.after ⟨page, d⟩ (renderAt settings d nodes) =
        .error (.callDepth name limit span) ⟨left, d⟩ := Point.after_eq_error_iff.mpr ⟨hleft, rfl⟩
    obtain ⟨hlimit, arguments, met, s, hcomes, hdepth, hs⟩ :=
      hrenders.comes_of_callDepth ⟨left, d⟩ hafter
    refine ⟨hlimit, arguments, met.page, s, ?_, hs⟩
    have hmet : met.depth = maxDepth := Nat.le_antisymm (hcomes.depth_le hd) hdepth
    rwa [← hmet]
  · rintro ⟨rfl, arguments, met, s, hcomes, hs⟩
    obtain ⟨q, hq⟩ := hcomes.fails (.tooDeep hs (Nat.le_refl _))
    exact ⟨q.page, (Point.after_eq_error_iff.mp hq.eq_after.symm).1⟩

/-- A sub-template that is run within the limit, and the same beyond it. -/
theorem depth_limit_run :
    let settings : Settings := ⟨⟨fun _ _ _ => pure (.error ""), "http:"⟩, true, none⟩
    let page : Page := { memory := { scope := { root := [] } },
                         registry := [("s", ⟨[], [.text "a"], []⟩)] }
    let nodes : List Node := [.run "s" [] ⟨2, 9⟩]
    renderAt settings 0 nodes page = .ok .next { page with output := "a" } ∧
      ∃ left, renderAt settings maxDepth nodes page = .error (.callDepth "s" maxDepth ⟨2, 9⟩) left := by
  intro settings page nodes
  obtain ⟨hlower, hlimit, hrules⟩ := depth_limit settings nodes page
  let run : Runner := fun _ _ _ => pure ()
  have hlast : 127 < maxDepth := by decide
  let written : Point := ⟨{ page with memory.scope.frames := [[]], output := "a" }, 128⟩
  have hbody : Renders settings (.nodes [.text "a"]) (Point.enter [[]] ⟨page, 127⟩)
      (.ok .next written) := .cons (.simple run rfl) .nil
  have hcall : Renders settings (.call "s" [] ⟨2, 9⟩) ⟨page, 127⟩
      (Outcome.ending .next (Point.back []) (.ok .next written)) := .call rfl hlast hbody
  have hafter := (hrules 127 _).mp (.cons (.run rfl rfl hcall) .nil)
  have hdeep : renderAt settings 127 nodes page = .ok .next { page with output := "a" } :=
    (Point.after_eq_ok_iff.mp hafter.symm).1
  have hwithin : ∀ name limit span left,
      renderAt settings 127 nodes page ≠ .error (.callDepth name limit span) left := by
    rw [hdeep]
    nofun
  refine ⟨(hlower 127 0 (by decide) (by decide) hwithin).trans hdeep, ?_⟩
  exact (hlimit maxDepth (Nat.le_refl _) "s" maxDepth ⟨2, 9⟩).mpr
    ⟨rfl, [], page, _, .node (.run rfl rfl .here), rfl⟩

end Stencil
