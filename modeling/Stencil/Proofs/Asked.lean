/-
Stencil/Proofs/Asked.lean

What a render comes to when one sub-template is asked for.  The guard throws away what
has been written, runs the sub-template, and no node behind it comes next, in whichever
conditionals it stands.  Only a loop would go on behind its guard.

Up to the guard, a render can be told without loops and calls: no sub-template that has
been met holds a guard, so if the guard stands in no loop either, `Leads` are the rules
by which the render gets there (`Comes.leads`).  Along these rules the text of a
document and its forms make no difference but in the output, and what stands behind the
guard makes none at all (`Leads.revised`).  The way is the same from points that differ
in their output alone.

The main result, `render_asked`, says what such a render comes to, for a template and
for all that differ from it in what makes no difference.
-/
import Stencil.Proofs.Dispatch
import Stencil.Proofs.Restyling

namespace Stencil

open Rendering

/-! ### Guards in loops -/

mutual

/-- The guards in a node that stand in a loop, outside of definitions. -/
def Node.loopGuards : Node → List Bool
  | .choose branches otherwise => loopGuardsInBranches branches ++ loopGuardsIn otherwise
  | .forEach _ _ body otherwise => guardsIn false body ++ guardsIn false otherwise
  | _ => []

/-- The guards in some nodes that stand in a loop. -/
def loopGuardsIn : List Node → List Bool
  | [] => []
  | node :: nodes => node.loopGuards ++ loopGuardsIn nodes

/-- The guards in the bodies of some branches that stand in a loop. -/
def loopGuardsInBranches : List Branch → List Bool
  | [] => []
  | .mk _ body :: branches => loopGuardsIn body ++ loopGuardsInBranches branches

end

namespace Job

/-- The guards in what is to be done. -/
def guards : Job → List Bool
  | .node n => n.guards false
  | .nodes ns => guardsIn false ns
  | .branches bs otherwise => guardsInBranches false bs ++ guardsIn false otherwise
  | .items _ body _ => guardsIn false body
  | .call .. => []

/-- The guards in what is to be done that stand in a loop. -/
def loopGuards : Job → List Bool
  | .node n => n.loopGuards
  | .nodes ns => loopGuardsIn ns
  | .branches bs otherwise => loopGuardsInBranches bs ++ loopGuardsIn otherwise
  | .items _ body _ => guardsIn false body
  | .call .. => []

theorem guards_branches (condition : Expression) (body otherwise : List Node)
    (bs : List Branch) :
    guards (.branches (.mk condition body :: bs) otherwise) =
      guards (.nodes body) ++ guards (.branches bs otherwise) :=
  List.append_assoc ..

theorem loopGuards_branches (condition : Expression) (body otherwise : List Node)
    (bs : List Branch) :
    loopGuards (.branches (.mk condition body :: bs) otherwise) =
      loopGuards (.nodes body) ++ loopGuards (.branches bs otherwise) :=
  List.append_assoc ..

/-- All guards in what is to be done stand outside of definitions. -/
def Outside (job : Job) : Prop := ∀ place ∈ job.guards, place = false

end Job

theorem guardsIn_true_eq_nil_iff {nodes : List Node} :
    guardsIn true nodes = [] ↔ guardsIn false nodes = [] := by
  rw [← List.length_eq_zero_iff, ← List.length_eq_zero_iff, length_guardsIn true nodes]
  rfl

/-! ### Registries without guards -/

/-- The accord of a render with itself where all guards stand outside of definitions. -/
def Accord.outside : Accord where
  seen _ := True
  fault _ := True
  mark _ := True
  guard inner := inner = false

/-- No sub-template that has been met holds a guard. -/
def Point.Guardless (p : Point) : Prop :=
  ∀ name (s : Subtemplate), p.page.registry.lookup name = some s → guardsIn false s.body = []

section Guardless

variable {settings : Settings}

theorem Accord.outside_admits_iff {body : List Node} :
    Accord.outside.Admits true body ↔ guardsIn false body = [] := by
  rw [← guardsIn_true_eq_nil_iff]
  constructor
  · exact fun h => guardsIn_true_eq_nil h.guards
  · intro h
    refine ⟨fun _ _ => trivial, fun place hplace => ?_⟩
    rw [h] at hplace
    cases hplace

theorem Point.guardless_iff {p : Point} :
    p.Guardless ↔ Accord.outside.Pages p.page p.page :=
  ⟨fun h => ⟨.refl _, rfl, rfl, fun name s hs => Accord.outside_admits_iff.mpr (h name s hs)⟩,
    fun h name s hs => Accord.outside_admits_iff.mp (h.known name s hs)⟩

theorem Accord.outside_runs (settings : Settings) (remaining : Nat) :
    Accord.outside.Runs settings false (runSubtemplate settings remaining)
      (runSubtemplate settings remaining) := by
  have hsound : ∀ mark, Accord.outside.mark mark → ∀ e ∈ mark.expressions,
      e.Sound Accord.outside.seen Accord.outside.fault :=
    fun _ _ _ _ => ⟨fun _ _ _ => trivial, fun _ _ _ => ⟨trivial, trivial⟩⟩
  have hruns (name : String) (arguments : List Value) (span : Span) :
      Alike Accord.outside.Pages Accord.outside.fault
        (runSubtemplate settings remaining name arguments span)
        (runTested settings (fun _ => true) (pure ()) remaining name arguments span) :=
    alike_runTested (fun _ _ => rfl) hsound (fun _ _ _ _ => trivial) (fun _ _ _ _ => trivial)
      remaining name arguments span fun _ => trivial
  rw [runTested_of_pass fun _ => rfl] at hruns
  exact ⟨hsound, fun name _ span _ arguments => hruns name arguments span,
    fun _ name context _ => hruns name [context] _⟩

theorem Point.Guardless.of_alike {p q : Point} {m : Rendering Flow} {flow : Flow} (hp : p.Guardless)
    (hm : Alike Accord.outside.Pages Accord.outside.fault m m) (h : p.after m = .ok flow q) :
    q.Guardless := by
  have hsame := hm p.page p.page (guardless_iff.mp hp)
  rw [(after_eq_ok_iff.mp h).1] at hsame
  cases hsame with
  | ok hpages => exact guardless_iff.mpr hpages

/-- Where all guards stand outside of definitions, no sub-template is met that holds one. -/
theorem Point.Guardless.of_node {p q : Point} {node : Node} {flow : Flow} (hp : p.Guardless)
    (hnode : (Job.node node).Outside) (h : Renders settings (.node node) p (.ok flow q)) :
    q.Guardless :=
  hp.of_alike (alike_renderNode (Accord.outside_runs settings _) node (fun _ _ => trivial) hnode)
    h.eq_after.symm

theorem Point.Guardless.of_nodes {p q : Point} {nodes : List Node} {flow : Flow} (hp : p.Guardless)
    (hnodes : (Job.nodes nodes).Outside) (h : Renders settings (.nodes nodes) p (.ok flow q)) :
    q.Guardless :=
  hp.of_alike (alike_renderNodes (Accord.outside_runs settings _) nodes (fun _ _ => trivial) hnodes)
    h.eq_after.symm

theorem Point.Guardless.push {p : Point} (hp : p.Guardless) (frame : Frame) :
    (p.push frame).Guardless := hp

theorem Point.Guardless.of_evaluating {α : Type} {p q : Point} {evaluation : Evaluation α} {a : α}
    (hp : p.Guardless) (h : p.after (evaluating evaluation) = .ok a q) : q.Guardless := by
  obtain ⟨memory, -, rfl⟩ := exists_of_evaluating_ok h
  exact hp

end Guardless

/-! ### The way to the guard -/

/-- From a point on, what is to be done leads to the guard at the point `met` without loops and calls. -/
inductive Leads (settings : Settings) (met : Point) : Job → Point → Prop
  | here : Leads settings met (.node .dispatch) met
  | node {node : Node} {nodes : List Node} {p : Point} :
      Leads settings met (.node node) p → Leads settings met (.nodes (node :: nodes)) p
  | later {node : Node} {nodes : List Node} {p q : Point} :
      Renders settings (.node node) p (.ok .next q) → Leads settings met (.nodes nodes) q →
      Leads settings met (.nodes (node :: nodes)) p
  | choose {branches : List Branch} {otherwise : List Node} {p : Point} :
      Leads settings met (.branches branches otherwise) p →
      Leads settings met (.node (.choose branches otherwise)) p
  | otherwise {otherwise : List Node} {p : Point} :
      Leads settings met (.nodes otherwise) p → Leads settings met (.branches [] otherwise) p
  | holds {condition : Expression} {body otherwise : List Node} {branches : List Branch}
      {p q : Point} {v : Value} :
      p.after (evaluating (evaluate settings.toServices condition)) = .ok v q → v.isTruthy = true →
      Leads settings met (.nodes body) q →
      Leads settings met (.branches (.mk condition body :: branches) otherwise) p
  | passes {condition : Expression} {body otherwise : List Node} {branches : List Branch}
      {p q : Point} {v : Value} :
      p.after (evaluating (evaluate settings.toServices condition)) = .ok v q → v.isTruthy = false →
      Leads settings met (.branches branches otherwise) q →
      Leads settings met (.branches (.mk condition body :: branches) otherwise) p

section Leads

variable {settings : Settings} {met p : Point} {job : Job}

/-- A job that comes to the guard holds one, and if none stands in a loop, the rules without loops and
calls lead there.  The induction carries that no sub-template that has been met holds a guard. -/
theorem Comes.leads (h : Comes settings (.node .dispatch) met job p) (hjob : job.Outside)
    (hp : p.Guardless) :
    job.guards ≠ [] ∧ (job.loopGuards = [] → Leads settings met job p) := by
  induction h with
  | here => exact ⟨nofun, fun _ => .here⟩
  | node _ ih =>
    -- the guards of a row are those of its first node and those of the others; what is come to holds
    -- one, so the row does
    obtain ⟨hnode, -⟩ := List.forall_mem_append.mp hjob
    obtain ⟨hguards, hleads⟩ := ih hnode hp
    refine ⟨List.append_ne_nil_of_left_ne_nil hguards _, fun hloops => .node (hleads ?_)⟩
    exact (List.append_eq_nil_iff.mp hloops).1
  | later hfirst _ ih =>
    obtain ⟨hnode, hnodes⟩ := List.forall_mem_append.mp hjob
    -- what the first node registers holds no guard, as none stands in a definition here
    obtain ⟨hguards, hleads⟩ := ih hnodes (hp.of_node hnode hfirst)
    refine ⟨List.append_ne_nil_of_right_ne_nil _ hguards, fun hloops => .later hfirst (hleads ?_)⟩
    exact (List.append_eq_nil_iff.mp hloops).2
  | choose _ ih =>
    obtain ⟨hguards, hleads⟩ := ih hjob hp
    exact ⟨hguards, fun hloops => .choose (hleads hloops)⟩
  | otherwise _ ih =>
    obtain ⟨hguards, hleads⟩ := ih hjob hp
    exact ⟨hguards, fun hloops => .otherwise (hleads hloops)⟩
  | holds hcondition hv _ ih =>
    rw [Job.Outside, Job.guards_branches] at hjob
    rw [Job.guards_branches, Job.loopGuards_branches]
    obtain ⟨hbody, -⟩ := List.forall_mem_append.mp hjob
    obtain ⟨hguards, hleads⟩ := ih hbody (hp.of_evaluating hcondition)
    refine ⟨List.append_ne_nil_of_left_ne_nil hguards _,
      fun hloops => .holds hcondition hv (hleads ?_)⟩
    exact (List.append_eq_nil_iff.mp hloops).1
  | passes hcondition hv _ ih =>
    rw [Job.Outside, Job.guards_branches] at hjob
    rw [Job.guards_branches, Job.loopGuards_branches]
    obtain ⟨-, hbranches⟩ := List.forall_mem_append.mp hjob
    obtain ⟨hguards, hleads⟩ := ih hbranches (hp.of_evaluating hcondition)
    refine ⟨List.append_ne_nil_of_right_ne_nil _ hguards,
      fun hloops => .passes hcondition hv (hleads ?_)⟩
    exact (List.append_eq_nil_iff.mp hloops).2
  -- a guard that is come to in a loop is one that stands in a loop
  | noItems hcollection hempty _ ih =>
    obtain ⟨-, hotherwise⟩ := List.forall_mem_append.mp hjob
    have hq := hp.of_evaluating hcollection
    obtain ⟨hguards, -⟩ := ih hotherwise hq
    refine ⟨List.append_ne_nil_of_right_ne_nil _ hguards, fun hloops => absurd hloops ?_⟩
    exact List.append_ne_nil_of_right_ne_nil _ hguards
  | items hcollection hentries _ ih =>
    obtain ⟨hbody, -⟩ := List.forall_mem_append.mp hjob
    obtain ⟨hguards, -⟩ := ih hbody (hp.of_evaluating hcollection)
    refine ⟨List.append_ne_nil_of_left_ne_nil hguards _, fun hloops => absurd hloops ?_⟩
    exact List.append_ne_nil_of_left_ne_nil hguards _
  | item _ ih =>
    obtain ⟨hguards, -⟩ := ih hjob hp
    exact ⟨hguards, fun hloops => absurd hloops hguards⟩
  | laterItem hbody _ _ ih =>
    have hq := (hp.push _).of_nodes hjob hbody
    obtain ⟨hguards, -⟩ := ih hjob hq
    exact ⟨hguards, fun hloops => absurd hloops hguards⟩
  -- a call comes to no guard
  | run _ harguments _ ih =>
    obtain ⟨hguards, -⟩ := ih nofun (hp.of_evaluating harguments)
    exact absurd rfl hguards
  | asked _ _ ih =>
    obtain ⟨hguards, -⟩ := ih nofun hp
    exact absurd rfl hguards
  | call hname _ _ ih =>
    have hbody := hp _ _ hname
    obtain ⟨hguards, -⟩ := ih (by simp [Job.Outside, Job.guards, hbody]) hp
    exact absurd hbody hguards

theorem Leads.depth_eq (h : Leads settings met job p) : met.depth = p.depth := by
  induction h with
  | here => rfl
  | node _ ih => exact ih
  | later hnode _ ih => exact ih.trans hnode.depth_eq
  | choose _ ih => exact ih
  | otherwise _ ih => exact ih
  | holds hcondition _ _ ih => exact ih.trans (Point.depth_of_ok hcondition)
  | passes hcondition _ _ ih => exact ih.trans (Point.depth_of_ok hcondition)

theorem Leads.guards_ne_nil (h : Leads settings met job p) : job.guards ≠ [] := by
  induction h with
  | here => exact nofun
  | node _ ih => exact List.append_ne_nil_of_left_ne_nil ih _
  | later _ _ ih => exact List.append_ne_nil_of_right_ne_nil _ ih
  | choose _ ih => exact ih
  | otherwise _ ih => exact ih
  | holds _ _ _ ih =>
    rw [Job.guards_branches]
    exact List.append_ne_nil_of_left_ne_nil ih _
  | passes _ _ _ ih =>
    rw [Job.guards_branches]
    exact List.append_ne_nil_of_right_ne_nil _ ih

/-- Where the guard lets nothing behind it come next, what it comes to is what the whole comes to. -/
theorem Leads.renders {r : Outcome} (h : Leads settings met job p)
    (hguard : Renders settings (.node .dispatch) met r) (hstop : ∀ q, r ≠ .ok .next q) :
    Renders settings job p r := by
  induction h with
  | here => exact hguard
  | node _ ih => exact .stop ih hstop
  | later hnode _ ih => exact .cons hnode ih
  | choose _ ih => exact .choose ih
  | otherwise _ ih => exact .otherwise ih
  | holds hcondition hv _ ih => exact .holds hcondition hv ih
  | passes hcondition hv _ ih => exact .passes hcondition hv ih

end Leads

/-! ### Documents that are the same up to their guard -/

/-- The two jobs are the same up to their guards, but for text and forms outside of definitions; what
stands behind the guards may be anything. -/
inductive Job.Revised : Job → Job → Prop
  | guard : Revised (.node .dispatch) (.node .dispatch)
  | node {node node' : Node} {behind behind' : List Node} :
      Revised (.node node) (.node node') →
      Revised (.nodes (node :: behind)) (.nodes (node' :: behind'))
  | later {node node' : Node} {nodes nodes' : List Node} :
      node.plain = node'.plain → Revised (.nodes nodes) (.nodes nodes') →
      Revised (.nodes (node :: nodes)) (.nodes (node' :: nodes'))
  | choose {branches branches' : List Branch} {otherwise otherwise' : List Node} :
      Revised (.branches branches otherwise) (.branches branches' otherwise') →
      Revised (.node (.choose branches otherwise)) (.node (.choose branches' otherwise'))
  | otherwise {nodes nodes' : List Node} :
      Revised (.nodes nodes) (.nodes nodes') →
      Revised (.branches [] nodes) (.branches [] nodes')
  | body {condition : Expression} {body body' behind behind' : List Node}
      {branches branches' : List Branch} :
      Revised (.nodes body) (.nodes body') →
      Revised (.branches (.mk condition body :: branches) behind)
        (.branches (.mk condition body' :: branches') behind')
  | branch {condition : Expression} {body body' otherwise otherwise' : List Node}
      {branches branches' : List Branch} :
      plainNodes body = plainNodes body' →
      Revised (.branches branches otherwise) (.branches branches' otherwise') →
      Revised (.branches (.mk condition body :: branches) otherwise)
        (.branches (.mk condition body' :: branches') otherwise')

section Revised

variable {settings : Settings} {met p p' : Point} {job job' : Job}

theorem Job.Revised.guards_ne_nil (h : Revised job job') : job.guards ≠ [] := by
  induction h with
  | guard => exact nofun
  | node _ ih => exact List.append_ne_nil_of_left_ne_nil ih _
  | later _ _ ih => exact List.append_ne_nil_of_right_ne_nil _ ih
  | choose _ ih => exact ih
  | otherwise _ ih => exact ih
  | body _ ih =>
    rw [guards_branches]
    exact List.append_ne_nil_of_left_ne_nil ih _
  | branch _ _ ih =>
    rw [guards_branches]
    exact List.append_ne_nil_of_right_ne_nil _ ih

/-- Where only one guard stands, it does not stand on both sides. -/
theorem not_both_guards {left right : List Bool} (h : (left ++ right).length ≤ 1)
    (hleft : left ≠ []) (hright : right ≠ []) : False := by
  have hl := List.length_pos_iff.mpr hleft
  have hr := List.length_pos_iff.mpr hright
  rw [List.length_append] at h
  omega

/-- The way to the only guard stays the same way in a document that is the same up to it. -/
theorem Leads.revised (h : Leads settings met job p) (hone : job.guards.length ≤ 1)
    (hjob : job.Revised job') (hp : p.cleared = p'.cleared) :
    ∃ met', Leads settings met' job' p' ∧ met.cleared = met'.cleared := by
  -- by induction on the way: what lies on it is the same in both documents but for texts, and leads to
  -- the same page up to the output
  induction h generalizing job' p' with
  | here =>
    cases hjob with
    | guard => exact ⟨p', .here, hp⟩
  | node hnode ih =>
    cases hjob with
    | node hrevised =>
      have hone := Nat.le_trans (List.sublist_append_left ..).length_le hone
      obtain ⟨met', hleads, hmet⟩ := ih hone hrevised hp
      exact ⟨met', .node hleads, hmet⟩
    -- the only guard stands in the first node, so none stands behind it
    | later _ hrevised => exact (not_both_guards hone hnode.guards_ne_nil hrevised.guards_ne_nil).elim
  | later hfirst hnodes ih =>
    cases hjob with
    | node hrevised => exact (not_both_guards hone hrevised.guards_ne_nil hnodes.guards_ne_nil).elim
    | later hplain hrevised =>
      have hone := Nat.le_trans (List.sublist_append_right ..).length_le hone
      -- the nodes in front of the guard do the same in both documents
      obtain ⟨q', hfirst', hq⟩ := hfirst.restyled hplain hp
      obtain ⟨met', hleads, hmet⟩ := ih hone hrevised hq
      exact ⟨met', .later hfirst' hleads, hmet⟩
  | choose _ ih =>
    cases hjob with
    | choose hrevised =>
      obtain ⟨met', hleads, hmet⟩ := ih hone hrevised hp
      exact ⟨met', .choose hleads, hmet⟩
  | otherwise _ ih =>
    cases hjob with
    | otherwise hrevised =>
      obtain ⟨met', hleads, hmet⟩ := ih hone hrevised hp
      exact ⟨met', .otherwise hleads, hmet⟩
  | holds hcondition hv hbody ih =>
    rw [Job.guards_branches] at hone
    cases hjob with
    | body hrevised =>
      obtain ⟨q', hcondition', hq⟩ := (unseeing_evaluating _).after_ok hp hcondition
      have hone := Nat.le_trans (List.sublist_append_left ..).length_le hone
      obtain ⟨met', hleads, hmet⟩ := ih hone hrevised hq
      exact ⟨met', .holds hcondition' hv hleads, hmet⟩
    -- where the condition holds, the guard stands in this body and in none behind it
    | branch _ hrevised =>
      exact (not_both_guards hone hbody.guards_ne_nil hrevised.guards_ne_nil).elim
  | passes hcondition hv hbranches ih =>
    rw [Job.guards_branches] at hone
    cases hjob with
    | body hrevised =>
      exact (not_both_guards hone hrevised.guards_ne_nil hbranches.guards_ne_nil).elim
    | branch _ hrevised =>
      obtain ⟨q', hcondition', hq⟩ := (unseeing_evaluating _).after_ok hp hcondition
      have hone := Nat.le_trans (List.sublist_append_right ..).length_le hone
      obtain ⟨met', hleads, hmet⟩ := ih hone hrevised hq
      exact ⟨met', .passes hcondition' hv hleads, hmet⟩

end Revised

/-! ### What the guard comes to -/

/-- What is written in the end, or the fault. -/
def Outcome.result : Outcome → Except RenderFault String
  | .ok _ p => .ok p.page.output
  | .error fault _ => .error fault

/-- What the sub-template `name` writes for one argument where it is the first to be run, from a page
on from which everything that was written before has been taken away; nothing if there is none. -/
def Page.answer (settings : Settings) (name : String) (argument : Value) (page : Page) :
    Except RenderFault String :=
  match page.registry.lookup name with
  | none => .ok ""
  | some s => resultOf (renderAt settings 1 s.body
      { page with output := "", memory.scope.frames := s.frame [argument] :: s.captured })

section Answer

variable {settings : Settings} {name : String} {context : Value} {met : Point}

theorem resultOf_eq_result (m : Rendering Flow) (p : Point) :
    resultOf (m p.page) = Outcome.result (p.after m) := by
  rw [Point.after]
  cases m p.page <;> rfl

theorem Outcome.result_ending (r : Outcome) (flow : Flow) (back : Point → Point)
    (hback : ∀ q, (back q).page.output = q.page.output) : (r.ending flow back).result = r.result := by
  cases r with
  | ok other q => exact congrArg Except.ok (hback q)
  | error fault q => rfl

theorem Page.answer_eq_of_cleared {met' : Point} (h : met.cleared = met'.cleared) :
    met.page.answer settings name context = met'.page.answer settings name context := by
  obtain ⟨hpage, -⟩ := Point.sameButOutput_of_cleared h
  rw [answer, answer, hpage.registry, hpage.memory]

/-- The guard throws away what was written, and nothing behind it comes next. -/
theorem renders_guard (hasked : settings.asked = some (name, context)) (hdepth : met.depth = 0) :
    ∃ r, Renders settings (.node .dispatch) met r ∧ (∀ q, r ≠ .ok .next q) ∧
      r.result = met.page.answer settings name context := by
  have hstop (r : Outcome) (q : Point) : r.ending .finish id ≠ .ok .next q := by
    cases r <;> nofun
  rw [Page.answer]
  cases hname : met.page.registry.lookup name with
  | none => exact ⟨_, .asked hasked (.nothing hname), hstop _, rfl⟩
  | some s =>
    have hlimit : met.cleared.depth < maxDepth := by
      show met.depth < maxDepth
      rw [hdepth]
      decide
    have hbody := renders_renderAt settings s.body (met.cleared.enter (s.frame [context] :: s.captured))
    refine ⟨_, .asked hasked (.call hname hlimit hbody), hstop _, ?_⟩
    rw [Outcome.result_ending _ .finish id fun _ => rfl,
      Outcome.result_ending _ .next (Point.back _) fun _ => rfl, ← resultOf_eq_result,
      Point.enter_depth, show met.cleared.depth = 0 from hdepth]
    rfl

/-- A render that leads to its guard comes to what the sub-template that is asked for comes to. -/
theorem Leads.render_eq {t : Template} {host : Host} {key : String} (hkey : key ≠ "")
    (h : Leads (t.settings host context key) met (.nodes t.nodes) ⟨startPage context key, 0⟩) :
    t.render host context key = met.page.answer (t.settings host context key) key context := by
  have hasked : (t.settings host context key).asked = some (key, context) :=
    if_neg (by rwa [String.isEmpty_iff])
  obtain ⟨r, hguard, hstop, hresult⟩ := renders_guard hasked h.depth_eq
  rw [← hresult, (h.renders hguard hstop).eq_after]
  exact resultOf_eq_result _ ⟨startPage context key, 0⟩

end Answer

/-- **A render that is asked for one sub-template returns nothing else.**  Where the guard of a template
stands in no loop and a render comes to execute it, the result is what the sub-template of the name comes
to that was registered last: run with the raw context as its only argument, among the names and the
sub-templates of that moment, with nothing written before, while no other is being run.  If there is none,
the result is empty.  So it stays the same when the text and the forms of the template are replaced
outside of definitions, and everything behind the guard. -/
theorem render_asked {source : String} {c : Configuration} {t : Template}
    (h : Template.compile source c = .ok t) (hloops : loopGuardsIn t.nodes = []) (host : Host)
    (context : Value) {key : String} (hkey : key ≠ "") {met : Point}
    (hmet : Comes (t.settings host context key) (.node .dispatch) met (.nodes t.nodes)
      ⟨startPage context key, 0⟩) :
    met.depth = 0 ∧
    t.render host context key = met.page.answer (t.settings host context key) key context ∧
    ∀ nodes, Job.Revised (.nodes t.nodes) (.nodes nodes) →
      { t with nodes }.render host context key = t.render host context key := by
  obtain ⟨d, pieces, items, hstages⟩ := Template.stages h
  have hguards := guardsIn_nest hstages.nested
  have houtside : (Job.nodes t.nodes).Outside := by
    show ∀ place ∈ guardsIn false t.nodes, place = false
    rw [hguards]
    split <;> simp
  have hone : (Job.nodes t.nodes).guards.length ≤ 1 := by
    show (guardsIn false t.nodes).length ≤ 1
    rw [hguards]
    split <;> simp
  have hleads := (hmet.leads houtside nofun).2 hloops
  refine ⟨hleads.depth_eq, hleads.render_eq hkey, fun nodes hrevised => ?_⟩
  obtain ⟨met', hleads', hcleared⟩ := hleads.revised hone hrevised rfl
  rw [hleads.render_eq hkey, Page.answer_eq_of_cleared hcleared]
  exact Leads.render_eq (t := { t with nodes }) hkey hleads'

/-- A guard in a conditional, and the same with another text before it, another form and other nodes
behind. -/
theorem render_asked_choose :
    let body : List Node := [.text "[", .output .default (.identifier ⟨43, 44⟩ "v"), .text "]"]
    let t : Template := ⟨[.text "a", .choose [.mk (.identifier ⟨6, 11⟩ "value")
      [.output .default (.identifier ⟨17, 22⟩ "value"), .define "s" ["v"] body, .dispatch,
        .text "b"]] [], .text "c"], true, "http:"⟩
    let nodes : List Node := [.text "d", .choose [.mk (.identifier ⟨6, 11⟩ "value")
      [.output .raw (.identifier ⟨17, 22⟩ "value"), .define "s" ["v"] body, .dispatch]] [.leave]]
    let host : Host := fun _ _ _ => pure (.error "")
    (Template.compile "a<%if(value)%><%=value%><%define s(v)%>[<%=v%>]<%/define%>b<%/if%>c" {} = .ok t ∧
      loopGuardsIn t.nodes = []) ∧
    t.render host (.text "&") "s" = .ok "[&amp;]" ∧
    { t with nodes }.render host (.text "&") "s" = .ok "[&amp;]" := by
  intro body t nodes host
  have h : Template.compile
      "a<%if(value)%><%=value%><%define s(v)%>[<%=v%>]<%/define%>b<%/if%>c" {} = .ok t := rfl
  let run : Runner := fun _ _ _ => pure ()
  let met : Page := { startPage (.text "&") "s" with registry := [("s", ⟨["v"], body, []⟩)],
                                                     output := "a&amp;" }
  have hmet : Comes (t.settings host (.text "&") "s") (.node .dispatch) ⟨met, 0⟩ (.nodes t.nodes)
      ⟨startPage (.text "&") "s", 0⟩ :=
    .later (.simple run rfl) (.node (.choose (.holds rfl rfl
      (.later (.simple run rfl) (.later (.simple run rfl) (.node .here))))))
  obtain ⟨-, hrender, hsame⟩ := render_asked h rfl host (.text "&") (by decide) hmet
  have hanswer : t.render host (.text "&") "s" = .ok "[&amp;]" := hrender.trans (by decide +kernel)
  refine ⟨⟨h, rfl⟩, hanswer, ?_⟩
  rw [← hanswer]
  exact hsame nodes (.later rfl (.node (.choose (.body (.later rfl (.later rfl (.node .guard)))))))

end Stencil
