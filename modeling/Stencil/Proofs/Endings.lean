/-
Stencil/Proofs/Endings.lean

How nodes end.  `EndsIn flows m` says that a part of a render which no fault stops ends in
one of some ways.  Nodes end as the nodes in them do, or let the next ones come; but a
loop, a definition and a run let the next ones come however what stands in them ends
(`goesOn_of_confines`).  So nodes are left only if a `leave` stands in them outside of all
loops and definitions, and rendering is finished only if a guard for sub-templates stands
in them (`endsIn_renderNodes`).
-/
import Stencil.Proofs.Parts
import Stencil.Render

namespace Stencil

open Rendering

mutual

/-- The node is a `leave`, or holds one outside of all loops. -/
def Node.leaves : Node → Bool
  | .leave => true
  | .choose branches otherwise => leavesInBranches branches || leavesIn otherwise
  | _ => false

/-- A `leave` stands in the nodes outside of all loops. -/
def leavesIn : List Node → Bool
  | [] => false
  | node :: nodes => node.leaves || leavesIn nodes

/-- A `leave` stands in the bodies of the branches outside of all loops. -/
def leavesInBranches : List Branch → Bool
  | [] => false
  | .mk _ body :: branches => leavesIn body || leavesInBranches branches

end

/-! ### Ways to end -/

/-- This part of a render ends in one of the ways, unless a fault stops it. -/
def EndsIn (flows : Flow → Prop) (m : Rendering Flow) : Prop :=
  ∀ page flow left, m page = .ok flow left → flows flow

/-- Where this part of a render ends without a fault, the nodes behind come next. -/
def GoesOn (m : Rendering Flow) : Prop := EndsIn (· = .next) m

namespace EndsIn

variable {flows flows' : Flow → Prop} {α : Type}

theorem mono {m : Rendering Flow} (h : EndsIn flows m) (hflows : ∀ flow, flows flow → flows' flow) :
    EndsIn flows' m := fun page flow left hm => hflows flow (h page flow left hm)

theorem pure {flow : Flow} (h : flows flow) : EndsIn flows (pure flow) := by
  rintro page _ left ⟨⟩
  exact h

theorem bind {m : Rendering α} {f : α → Rendering Flow} (hf : ∀ a, EndsIn flows (f a)) :
    EndsIn flows (m >>= f) := by
  intro page flow left h
  change EStateM.bind m f page = _ at h
  rw [EStateM.bind] at h
  split at h
  · next a page' _ => exact hf a page' flow left h
  · cases h

/-- What follows on nodes need only be looked at for the ways in which they end. -/
theorem bind_flow {m : Rendering Flow} {f : Flow → Rendering Flow} (hm : EndsIn flows' m)
    (hf : ∀ flow, flows' flow → EndsIn flows (f flow)) : EndsIn flows (m >>= f) := by
  intro page flow left h
  change EStateM.bind m f page = _ at h
  rw [EStateM.bind] at h
  split at h
  · next flow' page' hpage => exact hf flow' (hm page flow' page' hpage) page' flow left h
  · cases h

end EndsIn

/-! ### Nodes -/

/-- A loop, a definition or a run: what ends in it does not end what stands around it. -/
def Node.confines : Node → Bool
  | .forEach .. | .define .. | .run .. => true
  | _ => false

section Nodes

variable {settings : Settings} {run : Runner} {inner : Bool} {flows : Flow → Prop}

theorem goesOn_of_confines : {node : Node} → node.confines = true → GoesOn (renderNode settings run node)
  | .forEach _ _ _ _, _ => by
    rw [renderNode]
    refine .bind fun v => ?_
    split
    · exact .bind fun _ => .pure rfl
    · exact .bind fun _ => .pure rfl
  | .define _ _ _, _ => by
    rw [renderNode]
    exact .bind fun _ => .pure rfl
  | .run _ _ _, _ => by
    rw [renderNode]
    refine .bind fun page => ?_
    dsimp only
    split
    · exact .bind fun _ => .bind fun _ => .pure rfl
    · exact .pure rfl

/-- What stands behind such a node comes next. -/
theorem renderNodes_of_confines {node : Node} (h : node.confines = true) (rest : List Node) (page : Page) :
    renderNodes settings run (node :: rest) page =
      match renderNode settings run node page with
      | .ok _ left => renderNodes settings run rest left
      | .error fault left => .error fault left := by
  rw [renderNodes]
  show EStateM.bind _ _ page = _
  rw [EStateM.bind]
  rcases hnode : renderNode settings run node page with ⟨flow, left⟩ | ⟨fault, left⟩
  · obtain rfl := goesOn_of_confines h page flow left hnode
    rfl
  · rfl

mutual

theorem endsIn_renderNode (hnext : flows .next) : (node : Node) →
    (node.leaves = true → flows .leave) → (node.guards inner ≠ [] → flows .finish) →
    EndsIn flows (renderNode settings run node)
  | .text _, _, _ => by
    rw [renderNode]
    exact .bind fun _ => .pure hnext
  | .output _ _, _, _ => by
    rw [renderNode]
    refine .bind fun v => ?_
    dsimp only
    split
    · exact .bind fun _ => .pure hnext
    · exact .pure hnext
  | .declare _ none, _, _ | .declare _ (some _), _, _ => by
    rw [renderNode]
    exact .bind fun _ => .bind fun _ => .pure hnext
  | .evaluate _, _, _ => by
    rw [renderNode]
    exact .bind fun _ => .pure hnext
  | .choose branches otherwise, hleave, hfinish => by
    rw [renderNode]
    simp only [Node.leaves, Bool.or_eq_true] at hleave
    simp only [Node.guards, ne_eq, List.append_eq_nil_iff, Classical.not_and_iff_not_or_not] at hfinish
    exact endsIn_renderBranches hnext branches (fun h => hleave (.inl h)) (fun h => hfinish (.inl h))
      (endsIn_renderNodes hnext otherwise (fun h => hleave (.inr h)) fun h => hfinish (.inr h))
  -- what leaves a body ends at the loop, the definition or the run around it
  | .forEach _ _ _ _, _, _ | .define _ _ _, _, _ | .run _ _ _, _, _ =>
    (goesOn_of_confines rfl).mono fun _ h => h ▸ hnext
  | .leave, hleave, _ => by
    rw [renderNode]
    exact .pure (hleave rfl)
  -- the only node that ends the page, and only where a body was asked for
  | .dispatch, _, hfinish => by
    rw [renderNode]
    split
    · exact .bind fun _ => .bind fun _ => .pure (hfinish (List.cons_ne_nil _ _))
    · exact .pure hnext

theorem endsIn_renderNodes (hnext : flows .next) : (nodes : List Node) →
    (leavesIn nodes = true → flows .leave) → (guardsIn inner nodes ≠ [] → flows .finish) →
    EndsIn flows (renderNodes settings run nodes)
  | [], _, _ => by
    rw [renderNodes]
    exact .pure hnext
  | node :: nodes, hleave, hfinish => by
    rw [renderNodes]
    simp only [leavesIn, Bool.or_eq_true] at hleave
    simp only [guardsIn, ne_eq, List.append_eq_nil_iff, Classical.not_and_iff_not_or_not] at hfinish
    refine .bind_flow (endsIn_renderNode hnext node (fun h => hleave (.inl h)) fun h => hfinish (.inl h))
      fun flow hflow => ?_
    cases flow with
    | next => exact endsIn_renderNodes hnext nodes (fun h => hleave (.inr h)) fun h => hfinish (.inr h)
    | leave | finish => exact .pure hflow

theorem endsIn_renderBranches (hnext : flows .next) : (branches : List Branch) →
    {otherwise : Rendering Flow} → (leavesInBranches branches = true → flows .leave) →
    (guardsInBranches inner branches ≠ [] → flows .finish) → EndsIn flows otherwise →
    EndsIn flows (renderBranches settings run branches otherwise)
  | [], _, _, _, hotherwise => by
    rw [renderBranches]
    exact hotherwise
  | .mk condition body :: branches, _, hleave, hfinish, hotherwise => by
    rw [renderBranches]
    simp only [leavesInBranches, Bool.or_eq_true] at hleave
    simp only [guardsInBranches, ne_eq, List.append_eq_nil_iff, Classical.not_and_iff_not_or_not] at hfinish
    refine .bind fun v => ?_
    split
    · exact endsIn_renderNodes hnext body (fun h => hleave (.inl h)) fun h => hfinish (.inl h)
    · exact endsIn_renderBranches hnext branches (fun h => hleave (.inr h)) (fun h => hfinish (.inr h))
        hotherwise

end

/-- Without a `leave` and without a guard nodes let the next ones come. -/
theorem goesOn_renderNodes {nodes : List Node} (hleaves : leavesIn nodes = false)
    (hguards : guardsIn inner nodes = []) : GoesOn (renderNodes settings run nodes) :=
  (endsIn_renderNodes rfl nodes (by simp [hleaves]) fun h => absurd hguards h).mono fun _ h => h.symm

/-- Without a `leave` nodes are not left. -/
theorem ne_leave_renderNodes {nodes : List Node} (hleaves : leavesIn nodes = false) :
    EndsIn (· ≠ .leave) (renderNodes settings run nodes) :=
  endsIn_renderNodes nofun nodes (by simp [hleaves]) fun (_ : guardsIn false nodes ≠ []) => nofun

end Nodes

end Stencil
