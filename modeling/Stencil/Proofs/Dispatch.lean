/-
Stencil/Proofs/Dispatch.lean

When the guard for sub-templates is executed.  The bodies that are run as
sub-templates are bodies of definitions, and the guard of a compiled template stands
outside of all definitions.  So a render never runs a body that holds a guard: a
runner that does anything else there comes to the same result
(`alike_runTested_guardless`).

The guard runs its sub-template from the beginning of the source, where no `run`
directive can stand.  Since runs that are nested too deep are always those of `run`
directives, the guard itself never is.

The main result, `compile_guard`, says where the guard of a compiled template stands
and that its renders execute it there and nowhere else.
-/
import Stencil.Proofs.Agreement
import Stencil.Proofs.Compiling
import Stencil.Proofs.Guard

namespace Stencil

mutual

/-- Every guard inside of a definition is listed as such. -/
theorem Node.guards_true : (node : Node) → ∀ place ∈ node.guards true, place = true
  | .dispatch => by simp [Node.guards]
  | .choose branches otherwise => by
    rw [Node.guards, List.forall_mem_append]
    exact ⟨guardsInBranches_true branches, guardsIn_true otherwise⟩
  | .forEach _ _ body otherwise => by
    rw [Node.guards, List.forall_mem_append]
    exact ⟨guardsIn_true body, guardsIn_true otherwise⟩
  | .define _ _ body => guardsIn_true body
  | .text _ | .output .. | .declare .. | .evaluate _ | .leave | .run .. => nofun

theorem guardsIn_true : (nodes : List Node) → ∀ place ∈ guardsIn true nodes, place = true
  | [] => nofun
  | node :: nodes => by
    rw [guardsIn, List.forall_mem_append]
    exact ⟨node.guards_true, guardsIn_true nodes⟩

theorem guardsInBranches_true : (branches : List Branch) →
    ∀ place ∈ guardsInBranches true branches, place = true
  | [] => nofun
  | .mk _ body :: branches => by
    rw [guardsInBranches, List.forall_mem_append]
    exact ⟨guardsIn_true body, guardsInBranches_true branches⟩

end

/-- No guard in a definition stands outside of all definitions. -/
theorem guardsIn_true_eq_nil {nodes : List Node} (h : ∀ place ∈ guardsIn true nodes, place = false) :
    guardsIn true nodes = [] := by
  rw [List.eq_nil_iff_forall_not_mem]
  intro place hplace
  have hinner : place = true := guardsIn_true nodes place hplace
  rw [h place hplace] at hinner
  cases hinner

/-- The body of a definition holds no guard. -/
def guardless (body : List Node) : Bool := (guardsIn true body).isEmpty

/-- The accord of two renders of some nodes whose guards stand outside of all definitions. -/
def Accord.ofGuards (nodes : List Node) : Accord where
  seen _ := True
  fault fault := ∀ name limit span, fault = .callDepth name limit span →
    ∃ arguments, .run name arguments span ∈ marksOf nodes
  mark mark := mark ∈ marksOf nodes
  guard inner := inner = false

theorem Accord.sound_ofGuards {nodes : List Node} (e : Expression) :
    e.Sound (Accord.ofGuards nodes).seen (Accord.ofGuards nodes).fault :=
  ⟨fun _ _ _ => nofun, fun _ _ _ => ⟨trivial, nofun⟩⟩

theorem Accord.guardless_of_admits {nodes body : List Node}
    (h : (Accord.ofGuards nodes).Admits true body) : guardless body = true := by
  rw [guardless, List.isEmpty_iff]
  exact guardsIn_true_eq_nil h.guards

/-- Where no guard stands in a definition, it does not matter what running a body that holds one
would do. -/
theorem alike_runTested_guardless (settings : Settings) (nodes : List Node)
    (hguards : ∀ place ∈ guardsIn false nodes, place = false) (other : Rendering Unit) :
    Alike (Accord.ofGuards nodes).Pages (Accord.ofGuards nodes).fault
      (renderNodes settings (runSubtemplate settings maxDepth) nodes)
      (renderNodes settings (runTested settings guardless other maxDepth) nodes) := by
  refine alike_whole (fun _ => Accord.guardless_of_admits) (fun _ _ e _ => Accord.sound_ofGuards e)
    ?_ nofun ⟨fun _ hmark => hmark, hguards⟩
  rintro name expressions span hmark _ _ _ ⟨⟩
  exact ⟨expressions, hmark⟩

section Renders

variable {t : Template} (hguards : ∀ place ∈ guardsIn false t.nodes, place = false)
  (host : Host) (context : Value) (key : String)

include hguards

theorem alike_render (other : Rendering Unit) :
    SameOutcome (Accord.ofGuards t.nodes).Pages (Accord.ofGuards t.nodes).fault
      (renderNodes (t.settings host context key)
        (runSubtemplate (t.settings host context key) maxDepth) t.nodes (startPage context key))
      (renderNodes (t.settings host context key)
        (runTested (t.settings host context key) guardless other maxDepth) t.nodes
        (startPage context key)) :=
  alike_runTested_guardless _ _ hguards other _ _ ⟨.refl _, rfl, rfl, nofun⟩

/-- No render runs a body that holds a guard. -/
theorem render_eq_guardless (other : Rendering Unit) :
    t.render host context key = resultOf (renderNodes (t.settings host context key)
      (runTested (t.settings host context key) guardless other maxDepth) t.nodes
      (startPage context key)) := by
  rw [Template.render_eq_resultOf]
  exact (alike_render hguards host context key other).resultOf_eq

/-- Runs that are nested too deep are those of `run` directives. -/
theorem mem_marks_of_callDepth {name : String} {limit : Nat} {span : Span}
    (h : t.render host context key = .error (.callDepth name limit span)) :
    ∃ arguments, .run name arguments span ∈ marksOf t.nodes := by
  rw [Template.render_eq_resultOf] at h
  exact (alike_render hguards host context key (pure ())).fault_of_resultOf h name limit span rfl

end Renders

namespace Stages

variable {c : Configuration} {source : String} {d : Delimiters} {pieces : List Piece}
  {items : List Item} {t : Template}

/-- A `run` directive stands behind a left delimiter. -/
theorem run_start_pos (h : Stages c source d pieces items t) {name : String}
    {arguments : List Expression} {span : Span} (hmark : .run name arguments span ∈ marksOf t.nodes) :
    0 < span.start := by
  have hall : ∀ mark ∈ marksOf t.nodes, ∀ name arguments span, mark = .run name arguments span →
      0 < span.start := by
    refine forall_marksOf_nest h.nested nofun
      fun directive place hitem mark hmark name arguments span hrun => ?_
    subst hrun
    cases directive with
    | run =>
      obtain ⟨-, -, rfl⟩ : name = _ ∧ arguments = _ ∧ span = place := by
        simpa [Directive.marks] using hmark
      exact h.start_pos hitem
    | statements listed =>
      obtain ⟨s, -, hs⟩ := List.mem_map.mp hmark
      cases s <;> cases hs
    | _ => simp [Directive.marks] at hmark
  exact hall _ hmark name arguments span rfl

end Stages

/-- **The guard for sub-templates stands behind the last definition, and is executed there and nowhere
else.**  A compiled template has a guard exactly if it defines something, and then one, outside of all
definitions.  It stands right behind the definition that the last closing directive of the source closes,
in the same list of nodes, and nothing is defined behind it.  A render never runs a body that holds a
guard, and where runs are nested too deep, it is a `run` directive that asked for the last of them: the
guard, which runs its sub-template from the beginning of the source, never does. -/
theorem compile_guard {source : String} {c : Configuration} {t : Template}
    (h : Template.compile source c = .ok t) :
    guardsIn false t.nodes = (if definedNamesOf t.nodes = [] then [] else [false]) ∧
    (definedNamesOf t.nodes ≠ [] → ∃ d pieces items, Stages c source d pieces items t ∧
      ∃ (last : LastDefinition items) (body : List Node) (front behind : List Mark),
        front = condense (last.before.flatMap Item.marks) ∧
        marksOf body = condense (last.inner.flatMap Item.marks) ∧
        behind = condense (last.behind.flatMap Item.marks) ∧
        marksOf t.nodes =
          front ++ .define last.name last.parameters :: (marksOf body ++ .endDefine :: behind) ∧
        GuardAt last.name last.parameters body front t.nodes ∧
        ∀ mark ∈ behind, mark.definedName? = none) ∧
    (∀ host context key other, t.render host context key =
      resultOf (renderNodes (t.settings host context key)
        (runTested (t.settings host context key) guardless other maxDepth) t.nodes
        (startPage context key))) ∧
    (∀ host context key name limit span,
      t.render host context key = .error (.callDepth name limit span) →
      0 < span.start ∧ ∃ arguments, .run name arguments span ∈ marksOf t.nodes) := by
  obtain ⟨d, pieces, items, hstages⟩ := Template.stages h
  -- no body of a definition holds a guard, on which all but the place of the guard rests
  have hguards : ∀ place ∈ guardsIn false t.nodes, place = false := by
    rw [guardsIn_nest hstages.nested]
    split <;> simp
  refine ⟨guardsIn_nest hstages.nested, fun hnames => ?_, ?_, ?_⟩
  · -- a name is defined, so some directive closes a definition, and there is a last one
    have hends : endsDefinition items = true := by
      rw [Ne, definedNamesOf_nest hstages.nested, Bool.not_eq_false] at hnames
      exact hnames
    obtain ⟨last⟩ := ((nest_isOk items).mp (by rw [hstages.nested]; rfl)).lastDefinition hends
    obtain ⟨body, hbody, hguard⟩ := guardAt_nest hstages.nested last
    have hmarks := marksOf_nest_lastDefinition hstages.nested last
    refine ⟨d, pieces, items, hstages, last, body, _, _, rfl, hbody, rfl, ?_, hguard, ?_⟩
    · rw [hbody, hmarks]
    · refine forall_condense (fun _ => rfl) fun mark hmark => ?_
      obtain ⟨item, hitem, hmark⟩ := List.mem_flatMap.mp hmark
      exact Item.definedName?_of_mem (last.last item hitem).1 hmark
  · exact fun host context key other => render_eq_guardless hguards host context key other
  · intro host context key name limit span hrender
    obtain ⟨arguments, hmark⟩ := mem_marks_of_callDepth hguards host context key hrender
    exact ⟨hstages.run_start_pos hmark, arguments, hmark⟩

/-- A definition behind another one, inside of a conditional. -/
theorem compile_guard_choose :
    let t : Template := ⟨[.define "a" [] [.text "A"],
      .choose [.mk (.identifier ⟨31, 32⟩ "x") [.define "b" [] [.text "B"], .dispatch, .text "y"]] []],
      true, "http:"⟩
    Template.compile "<%define a()%>A<%/define%><%if(x)%><%define b()%>B<%/define%>y<%/if%>" {} = .ok t ∧
      guardsIn false t.nodes = [false] := by
  intro t
  have h : Template.compile
      "<%define a()%>A<%/define%><%if(x)%><%define b()%>B<%/define%>y<%/if%>" {} = .ok t := rfl
  exact ⟨h, (compile_guard h).1⟩

end Stencil
