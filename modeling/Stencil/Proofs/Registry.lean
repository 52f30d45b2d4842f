/-
Stencil/Proofs/Registry.lean

The names of the sub-templates of a template.  A tree lists its definitions in the order in
which the directives stand in the source, so the names that a template tells are those of
its segments that define something (`subtemplateNames_eq`).

No render meets any others.  `Registered names page` says that whatever is registered has
one of the names, and so has whatever the bodies define that are registered; every part of
a render keeps that (`keeps_perform`), and so it holds wherever a render comes to
(`Comes.registered`).  So a run of another name finds nothing to run, and neither does the
guard for sub-templates where another one was asked for.

The main result is `compile_subtemplateNames`.
-/
import Stencil.Proofs.Dispatch
import Stencil.Proofs.Keeping
import Stencil.Proofs.Outcome

namespace Stencil

open Rendering

/-! ### The names of a template -/

/-- The name that a directive defines. -/
def Directive.definedName? : Directive → Option String
  | .define name _ => some name
  | _ => none

/-- The name that the directive of a segment defines. -/
def Segment.definedName? : Segment → Option String
  | .literal _ => none
  | .directive body =>
    match classify body with
    | .ok taken => taken.definedName?
    | .error _ => none

/-- The name that a piece defines. -/
def Item.definedName? : Item → Option String
  | .text _ => none
  | .directive taken _ => taken.definedName?

/-- At most one of the marks of a piece opens a definition. -/
theorem Item.definedName?_eq (item : Item) :
    item.marks.filterMap Mark.definedName? = item.definedName?.toList := by
  rcases item with text | ⟨taken, span⟩
  · rfl
  · cases taken with
    | statements statements =>
      have hnone : ∀ s : Statement, s.mark.definedName? = none := fun s => by cases s <;> rfl
      simp [Item.marks, Directive.marks, Item.definedName?, Directive.definedName?, hnone]
    | _ => rfl

/-- A piece defines what its segment does. -/
theorem Item.definedName?_of_segment {part : Segment} {item : Item} (h : Item.ofSegment part = .ok item) :
    part.definedName? = item.definedName? := by
  cases part with
  | literal text =>
    cases h
    rfl
  | directive body =>
    obtain ⟨taken, hclassify, rfl⟩ := Item.eq_of_ofSegment h
    rw [Segment.definedName?, hclassify]
    rfl

/-- What elements give and what their images give is the same list. -/
theorem filterMap_of_mapM {α β γ ε : Type} {f : α → Except ε β} {g : α → Option γ} {g' : β → Option γ}
    (hsame : ∀ a b, f a = .ok b → g a = g' b) {as : List α} {bs : List β} (h : as.mapM f = .ok bs) :
    as.filterMap g = bs.filterMap g' := by
  induction as generalizing bs with
  | nil =>
    cases h
    rfl
  | cons a as ih =>
    obtain ⟨first, rest, ha, has, rfl⟩ := exists_of_mapM_cons h
    rw [List.filterMap_cons, List.filterMap_cons, hsame a first ha, ih has]

/-- A tree defines the names that its row does, in their order. -/
theorem definedNamesOf_nest_eq {items : List Item} {nodes : List Node} (h : nest items = .ok nodes) :
    definedNamesOf nodes = items.filterMap Item.definedName? := by
  rw [definedNamesOf_eq, marksOf_nest h, filterMap_condense, List.filterMap_flatMap]
  simp only [Item.definedName?_eq]
  rw [List.filterMap_eq_flatMap_toList]

/-! ### What may be registered -/

/-- What is registered has one of the names, and so has whatever its body defines. -/
structure Registered (names : List String) (page : Page) : Prop where
  name : ∀ entry ∈ page.registry, entry.1 ∈ names
  body : ∀ entry ∈ page.registry, definedNamesOf entry.2.body ⊆ names

/-- The mark defines nothing but one of the names. -/
def Mark.DefinesOneOf (names : List String) (mark : Mark) : Prop := ∀ name ∈ mark.definedName?, name ∈ names

/-- The names that the nodes of a job define. -/
def Job.definedNames : Job → List String
  | .node n => n.definedNames
  | .nodes ns => definedNamesOf ns
  | .branches bs otherwise => definedNamesIn bs ++ definedNamesOf otherwise
  | .items _ body _ => definedNamesOf body
  | .call .. => []

section Registered

variable {names : List String} {settings : Settings} {page : Page} {marks : List Mark}

theorem forall_definesOneOf_iff :
    (∀ mark ∈ marks, mark.DefinesOneOf names) ↔ marks.filterMap Mark.definedName? ⊆ names := by
  simp only [Mark.DefinesOneOf, List.subset_def, List.mem_filterMap, Option.mem_def]
  exact ⟨fun h name ⟨mark, hmark, hname⟩ => h mark hmark name hname,
    fun h mark hmark name hname => h ⟨mark, hmark, hname⟩⟩

/-- Only a name that is registered can be run. -/
theorem Registered.lookup_eq_none (h : Registered names page) {name : String} (hname : name ∉ names) :
    page.registry.lookup name = none := by
  rcases hlookup : page.registry.lookup name with - | s
  · rfl
  · exact absurd (h.name _ (Bindings.mem_of_lookup hlookup)) hname

/-- Nodes that define the names only register nothing else. -/
theorem registered_invariant (names : List String) (escapeDefault : Bool) (pageProtocol : String) :
    PageInvariant escapeDefault pageProtocol (Mark.DefinesOneOf names) (Registered names) where
  memory _ _ h := ⟨h.name, h.body⟩
  text _ _ _ h := ⟨h.name, h.body⟩
  output _ _ _ _ _ h := ⟨h.name, h.body⟩
  clear _ h := ⟨h.name, h.body⟩
  register page name parameters body captured hname hbody h := by
    rw [forall_definesOneOf_iff, ← definedNamesOf_eq] at hbody
    refine ⟨fun entry hentry => ?_, fun entry hentry => ?_⟩
    · rcases Bindings.mem_put hentry with rfl | hentry
      · exact hname name rfl
      · exact h.name entry hentry
    · rcases Bindings.mem_put hentry with rfl | hentry
      · exact hbody
      · exact h.body entry hentry
  bodies page name s h hlookup := by
    rw [forall_definesOneOf_iff, ← definedNamesOf_eq]
    exact h.body _ (Bindings.mem_of_lookup hlookup)

/-- Whatever is done keeps that. -/
theorem keeps_perform {job : Job} (hjob : job.definedNames ⊆ names) (remaining : Nat) :
    Keeps (Registered names) (job.perform settings (runSubtemplate settings remaining)) := by
  have hinv := registered_invariant names settings.escapeDefault settings.pageProtocol
  have hrun := keeps_runSubtemplate hinv remaining
  have hnodes {nodes : List Node} (h : definedNamesOf nodes ⊆ names) :
      Keeps (Registered names) (renderNodes settings (runSubtemplate settings remaining) nodes) := by
    rw [definedNamesOf_eq, ← forall_definesOneOf_iff] at h
    exact keeps_renderNodes hinv hrun nodes h
  cases job with
  | node node =>
    rw [Job.definedNames, node.definedNames_eq, ← forall_definesOneOf_iff] at hjob
    exact keeps_renderNode hinv hrun node hjob
  | nodes nodes => exact hnodes hjob
  | branches branches otherwise =>
    obtain ⟨hbranches, hotherwise⟩ := List.append_subset.mp hjob
    rw [definedNamesIn_eq .ifThen fun _ => rfl, ← forall_definesOneOf_iff] at hbranches
    exact keeps_renderBranches hinv hrun .ifThen branches _ hbranches (hnodes hotherwise)
  | items item body entries =>
    refine .bind (.visitEntries (fun key value => ?_) _) fun _ => .pure _
    refine .bind (.inFrame hinv.memory _ (hnodes hjob)) fun flow => ?_
    split <;> exact .pure _
  | call name arguments span => exact .bind (hrun name arguments span) fun _ => .pure _

theorem Registered.of_renders {job : Job} {p : Point} {r : Outcome} (hp : Registered names p.page)
    (h : Renders settings job p r) (hjob : job.definedNames ⊆ names) : Registered names r.point.page := by
  have hleft : Registered names ((job.perform settings (p.runner settings)).leaves p.page) :=
    keeps_perform hjob _ p.page hp
  rw [h.eq_after, Point.after]
  rw [Rendering.leaves] at hleft
  cases hm : job.perform settings (p.runner settings) p.page with
  | ok flow left =>
    rw [hm] at hleft
    exact hleft
  | error fault left =>
    rw [hm] at hleft
    exact hleft

theorem Registered.of_evaluating {α : Type} {p q : Point} {evaluation : Evaluation α} {a : α}
    (hp : Registered names p.page) (h : p.after (evaluating evaluation) = .ok a q) :
    Registered names q.page := by
  obtain ⟨memory, -, rfl⟩ := Point.exists_of_evaluating_ok h
  exact ⟨hp.name, hp.body⟩

theorem Registered.push {p : Point} (hp : Registered names p.page) (frame : Frame) :
    Registered names (p.push frame).page := ⟨hp.name, hp.body⟩

/-- Wherever a render comes to, nothing else is registered, and nothing else is defined by what is to be
done there. -/
theorem Comes.registered {goal job : Job} {met p : Point} (h : Comes settings goal met job p)
    (hjob : job.definedNames ⊆ names) (hp : Registered names p.page) :
    Registered names met.page ∧ goal.definedNames ⊆ names := by
  induction h with
  | here => exact ⟨hp, hjob⟩
  | node _ ih => exact ih (List.append_subset.mp hjob).1 hp
  | later hnode _ ih =>
    obtain ⟨hfirst, hrest⟩ := List.append_subset.mp hjob
    exact ih hrest (hp.of_renders hnode hfirst)
  | choose _ ih => exact ih hjob hp
  | otherwise _ ih => exact ih hjob hp
  | holds hcondition _ _ ih =>
    obtain ⟨hbranches, -⟩ := List.append_subset.mp hjob
    exact ih (List.append_subset.mp hbranches).1 (hp.of_evaluating hcondition)
  | passes hcondition _ _ ih =>
    obtain ⟨hbranches, hotherwise⟩ := List.append_subset.mp hjob
    have hrest := List.append_subset.mpr ⟨(List.append_subset.mp hbranches).2, hotherwise⟩
    exact ih hrest (hp.of_evaluating hcondition)
  | noItems hcollection _ _ ih =>
    exact ih (List.append_subset.mp hjob).2 ((hp.of_evaluating hcollection).push _)
  | items hcollection _ _ ih =>
    exact ih (List.append_subset.mp hjob).1 (hp.of_evaluating hcollection)
  | item _ ih => exact ih hjob (hp.push _)
  | laterItem hbody _ _ ih =>
    have hq := (hp.push _).of_renders hbody hjob
    exact ih hjob ⟨hq.name, hq.body⟩
  | run _ harguments _ ih => exact ih (List.nil_subset _) (hp.of_evaluating harguments)
  | asked _ _ ih => exact ih (List.nil_subset _) ⟨hp.name, hp.body⟩
  -- the body that comes next is one that is registered
  | call hname _ _ ih =>
    exact ih (hp.body _ (Bindings.mem_of_lookup hname)) ⟨hp.name, hp.body⟩

end Registered

/-! ### Names that a render does not know -/

/-- At a point of a render a name stands for nothing.  To run it does nothing, whatever the arguments are
and however they would be evaluated; and the guard that it was asked from throws away what was written,
ends the render and renders no body. -/
structure Point.Ignores (settings : Settings) (name : String) (p : Point) : Prop where
  run : ∀ settings' run arguments span,
    renderNode settings' run (.run name arguments span) p.page = .ok .next p.page
  asked : ∀ context, settings.asked = some (name, context) →
    (∀ r, Renders settings (.node .dispatch) p r ↔ r = .ok .finish { p with page.output := "" }) ∧
    ∀ body q, ¬ Comes settings (.nodes body) q (.node .dispatch) p

section Ignores

variable {settings : Settings} {name : String} {p : Point}

theorem Point.ignores_of_lookup (h : p.page.registry.lookup name = none) : p.Ignores settings name where
  run settings' run arguments span := by
    have hrun : p.after (renderNode settings' run (.run name arguments span)) = .ok .next p :=
      perform_run_unknown h
    exact (Point.after_eq_ok_iff.mp hrun).1
  asked context hasked := by
    refine ⟨fun r => ?_, fun body q hcomes => ?_⟩
    · have hcall : p.cleared.after (Job.perform settings (p.runner settings)
          (.call name [context] (.at 0))) = .ok .next p.cleared :=
        perform_call_nothing (p := p.cleared) h
      rw [renders_iff, Job.perform, perform_dispatch hasked, hcall]
      rfl
    · cases hcomes with
      | asked hasked' hcall =>
        cases hasked.symm.trans hasked'
        cases hcall with
        | call hname => cases h.symm.trans hname

end Ignores

/-! ### The names of a compiled template -/

/-- The names that a template tells are those that its segments define, in their order. -/
theorem subtemplateNames_eq {source : String} {c : Configuration} {t : Template}
    (h : Template.compile source c = .ok t) :
    ∃ d parts, c.delimiters = .ok d ∧ segments d source.toList = .ok parts ∧
      t.subtemplateNames = parts.filterMap Segment.definedName? := by
  obtain ⟨d, parts, hdelimiters, hparts, hnodes, -, -⟩ := Template.compile_eq_ok h
  refine ⟨d, parts, hdelimiters, hparts, ?_⟩
  obtain ⟨items, hitems, hnest⟩ := exists_of_nodesOfSegments hnodes
  rw [Template.subtemplateNames, definedNamesOf_nest_eq hnest,
    filterMap_of_mapM (fun _ _ => Item.definedName?_of_segment) hitems]

/-- **The sub-templates of a template are those that it names.**  A template that compiles names exactly
what the directives of its segments define, in their order and as often as they do.  At every moment of
every render of it, where something is about to be done and where it has been done, whatever is registered
has one of these names.  So any other name stands for nothing there. -/
theorem compile_subtemplateNames {source : String} {c : Configuration} {t : Template}
    (h : Template.compile source c = .ok t) :
    (∃ d parts, c.delimiters = .ok d ∧ segments d source.toList = .ok parts ∧
      t.subtemplateNames = parts.filterMap Segment.definedName?) ∧
    ∀ host context key goal met,
      Comes (t.settings host context key) goal met (.nodes t.nodes) ⟨startPage context key, 0⟩ →
      (∀ entry ∈ met.page.registry, entry.1 ∈ t.subtemplateNames) ∧
      (∀ r, Renders (t.settings host context key) goal met r →
        ∀ entry ∈ r.point.page.registry, entry.1 ∈ t.subtemplateNames) ∧
      ∀ name ∉ t.subtemplateNames, met.Ignores (t.settings host context key) name := by
  refine ⟨subtemplateNames_eq h, fun host context key goal met hmet => ?_⟩
  have hstart : Registered t.subtemplateNames (startPage context key) := ⟨nofun, nofun⟩
  obtain ⟨hpage, hgoal⟩ := hmet.registered (List.Subset.refl _) hstart
  refine ⟨hpage.name, fun r hr => (hpage.of_renders hr hgoal).name, fun name hname => ?_⟩
  exact Point.ignores_of_lookup (hpage.lookup_eq_none hname)

/-- A definition in another one, and one that comes in place of another; a third name is asked for. -/
theorem compile_subtemplateNames_nested :
    let t : Template := ⟨[.text "x", .define "a" [] [.define "b" [] [.text "B"]], .define "a" [] [.text "A"],
      .dispatch], true, "http:"⟩
    let host : Host := fun _ _ _ => pure (.error "")
    let settings : Settings := t.settings host .null "c"
    let met : Page := { startPage .null "c" with registry := [("a", ⟨[], [.text "A"], []⟩)], output := "x" }
    Template.compile "x<%define a()%><%define b()%>B<%/define%><%/define%><%define a()%>A<%/define%>" {} =
      .ok t ∧
    t.subtemplateNames = ["a", "b", "a"] ∧
    Comes settings (.node .dispatch) ⟨met, 0⟩ (.nodes t.nodes) ⟨startPage .null "c", 0⟩ ∧
    ∀ r, Renders settings (.node .dispatch) ⟨met, 0⟩ r ↔ r = .ok .finish ⟨{ met with output := "" }, 0⟩ := by
  intro t host settings met
  have h : Template.compile
      "x<%define a()%><%define b()%>B<%/define%><%/define%><%define a()%>A<%/define%>" {} = .ok t := rfl
  let run : Runner := fun _ _ _ => pure ()
  have hmet : Comes settings (.node .dispatch) ⟨met, 0⟩ (.nodes t.nodes) ⟨startPage .null "c", 0⟩ :=
    .later (.simple run rfl) (.later (.simple run rfl) (.later (.simple run rfl) (.node .here)))
  obtain ⟨-, hmoments⟩ := compile_subtemplateNames h
  obtain ⟨-, -, hothers⟩ := hmoments host .null "c" (.node .dispatch) ⟨met, 0⟩ hmet
  have hasked : settings.asked = some ("c", .null) := rfl
  exact ⟨h, rfl, hmet, ((hothers "c" (by decide)).asked .null hasked).1⟩

end Stencil
