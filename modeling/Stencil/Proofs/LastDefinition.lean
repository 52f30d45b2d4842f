/-
Stencil/Proofs/LastDefinition.lean

The last definition of a row.  A balanced row that closes a definition has a last
directive that does so, and a definition which that one ends (`LastDefinition`):
the pieces between the two are balanced, and those behind them neither open nor
close a definition.

Nothing that is listed joins the marks of a definition, so a listing falls apart at
them (`condense_fence`): what stands before, inside and behind the last definition
is condensed by itself (`marksOf_nest_lastDefinition`).
-/
import Stencil.Proofs.RowParts

namespace Stencil

/-! ### The last definition of a row -/

/-- The piece opens a definition. -/
def Item.opensDefinition : Item → Bool
  | .directive (.define ..) _ => true
  | _ => false

/-- The pieces neither open nor close a definition. -/
def Undefining (items : List Item) : Prop :=
  ∀ item ∈ items, item.opensDefinition = false ∧ item.endsDefinition = false

theorem Undefining.endsDefinition {items : List Item} (h : Undefining items) :
    endsDefinition items = false :=
  List.any_eq_false.mpr fun item hitem => by simp [(h item hitem).2]

/-- The directive of a row that closes a definition last, and the definition that it closes. -/
structure LastDefinition (items : List Item) where
  before : List Item
  name : String
  parameters : List String
  opener : Span
  inner : List Item
  closer : Span
  behind : List Item
  items_eq : items = before ++ .directive (.define name parameters) opener ::
    (inner ++ .directive .endDefine closer :: behind)
  balanced : Derives (.block true) inner
  last : Undefining behind

/-- Pieces in front, and pieces behind that neither open nor close a definition. -/
def LastDefinition.around {items : List Item} (l : LastDefinition items) (front back : List Item)
    (hback : Undefining back) : LastDefinition (front ++ (items ++ back)) where
  before := front ++ l.before
  name := l.name
  parameters := l.parameters
  opener := l.opener
  inner := l.inner
  closer := l.closer
  behind := l.behind ++ back
  items_eq := (congrArg (fun items => front ++ (items ++ back)) l.items_eq).trans (by simp)
  balanced := l.balanced
  last := fun item hitem => (List.mem_append.mp hitem).elim (l.last item) (hback item)

@[simp] theorem undefining_nil : Undefining [] := nofun

@[simp] theorem undefining_cons {item : Item} {items : List Item} :
    Undefining (item :: items) ↔
      (item.opensDefinition = false ∧ item.endsDefinition = false) ∧ Undefining items :=
  List.forall_mem_cons

@[simp] theorem undefining_append {items others : List Item} :
    Undefining (items ++ others) ↔ Undefining items ∧ Undefining others :=
  List.forall_mem_append

/-- Where no definition is closed, none is opened. -/
theorem Derives.undefining {part : RowPart} {items : List Item} (h : Derives part items)
    (hends : endsDefinition items = false) : Undefining items := by
  induction h with
  | nil => exact undefining_nil
  | @plain breakable item items hplain _ ih =>
    obtain ⟨hitem, hends⟩ : item.endsDefinition = false ∧ endsDefinition items = false := by
      simpa using hends
    refine undefining_cons.mpr ⟨⟨?_, hitem⟩, ih hends⟩
    rcases item with text | ⟨directive, span⟩
    · rfl
    · cases directive <;> first | rfl | cases hplain
  | define => simp [Item.endsDefinition] at hends
  | leave _ ih => exact undefining_cons.mpr ⟨⟨rfl, rfl⟩, ih hends⟩
  | choose _ _ _ ihBody ihTail ihRest | forEach _ _ _ ihBody ihTail ihRest =>
    simp only [endsDefinition_cons, endsDefinition_append, Bool.or_eq_false_iff] at hends
    simp only [undefining_cons, undefining_append]
    exact ⟨⟨rfl, rfl⟩, ihBody hends.2.1, ihTail hends.2.2.1, ihRest hends.2.2.2⟩
  | elseIf _ _ ihBody ihTail =>
    simp only [endsDefinition_cons, endsDefinition_append, Bool.or_eq_false_iff] at hends
    simp only [undefining_cons, undefining_append]
    exact ⟨⟨rfl, rfl⟩, ihBody hends.2.1, ihTail hends.2.2⟩
  | otherwise _ ihBody | forEachElse _ ihBody =>
    simp only [endsDefinition_cons, endsDefinition_append, Bool.or_eq_false_iff] at hends
    simp only [undefining_cons, undefining_append]
    exact ⟨⟨rfl, rfl⟩, ihBody hends.2.1, ⟨rfl, rfl⟩, undefining_nil⟩
  | endIf | endForEach => exact undefining_cons.mpr ⟨⟨rfl, rfl⟩, undefining_nil⟩

/-- One of two parts closes a definition last. -/
theorem lastDefinition_append {items rest : List Item} (front : List Item)
    (hends : endsDefinition (items ++ rest) = true)
    (hrest : endsDefinition rest = false → Undefining rest)
    (ih : endsDefinition items = true → Nonempty (LastDefinition items))
    (ihRest : endsDefinition rest = true → Nonempty (LastDefinition rest)) :
    Nonempty (LastDefinition (front ++ (items ++ rest))) := by
  cases hr : endsDefinition rest with
  | true =>
    obtain ⟨l⟩ := ihRest hr
    have hl := l.around (front ++ items) [] undefining_nil
    exact ⟨by simpa using hl⟩
  | false =>
    rw [endsDefinition_append, hr, Bool.or_false] at hends
    obtain ⟨l⟩ := ih hends
    exact ⟨l.around front rest (hrest hr)⟩

theorem Derives.lastDefinition {part : RowPart} {items : List Item} (h : Derives part items)
    (hends : endsDefinition items = true) : Nonempty (LastDefinition items) := by
  -- the parts are looked through from the last to the first
  induction h with
  | nil | endIf | endForEach => cases hends
  | @plain breakable item items hplain _ ih =>
    have hitem : item.endsDefinition = false := by
      rcases item with text | ⟨directive, span⟩
      · rfl
      · cases directive <;> first | rfl | cases hplain
    obtain ⟨l⟩ := ih (by simpa [hitem] using hends)
    have hl := l.around [item] [] undefining_nil
    exact ⟨by simpa using hl⟩
  | @leave span items _ ih =>
    obtain ⟨l⟩ := ih hends
    have hl := l.around [.directive .forEachBreak span] [] undefining_nil
    exact ⟨by simpa using hl⟩
  | @define breakable name parameters opener closer body items hbody hitems _ ihRest =>
    cases hrest : endsDefinition items with
    | true =>
      obtain ⟨l⟩ := ihRest hrest
      have hl := l.around (.directive (.define name parameters) opener ::
        (body ++ [.directive .endDefine closer])) [] undefining_nil
      exact ⟨by simpa using hl⟩
    | false =>
      exact ⟨⟨[], name, parameters, opener, body, closer, items, rfl, hbody, hitems.undefining hrest⟩⟩
  | choose _ htail hitems ihBody ihTail ihRest | forEach _ htail hitems ihBody ihTail ihRest =>
    refine lastDefinition_append [_] hends (fun h => ?_) ihBody fun h =>
      lastDefinition_append [] h hitems.undefining ihTail ihRest
    rw [endsDefinition_append, Bool.or_eq_false_iff] at h
    exact undefining_append.mpr ⟨htail.undefining h.1, hitems.undefining h.2⟩
  | elseIf _ htail ihBody ihTail =>
    exact lastDefinition_append [_] hends htail.undefining ihBody ihTail
  | @otherwise _ _ last _ _ ihBody =>
    exact lastDefinition_append [_] hends (fun _ => undefining_cons.mpr ⟨⟨rfl, rfl⟩, undefining_nil⟩)
      ihBody nofun
  | forEachElse _ ihBody =>
    exact lastDefinition_append [_] hends (fun _ => Derives.undefining .endForEach rfl) ihBody nofun

/-! ### Listings that fall apart -/

/-- Marks behind a mark that nothing joins are condensed among themselves. -/
theorem condenseStep_fence {fence : Mark} (h : ∀ mark, ¬ fence.Joins mark) (marks front : List Mark)
    (mark : Mark) :
    condenseStep (marks ++ fence :: front) mark = condenseStep marks mark ++ fence :: front := by
  by_cases hmark : mark = .text []
  · subst hmark
    simp [condenseStep]
  cases marks with
  -- what comes first behind the fence meets the fence, which it does not join
  | nil =>
    have hfence : ∀ last ∈ (fence :: front).head?, ¬ last.Joins mark := by
      rintro last ⟨⟩
      exact h mark
    have hnone : ∀ last ∈ ([] : List Mark).head?, ¬ last.Joins mark := fun _ hlast => by cases hlast
    rw [List.nil_append, condenseStep_eq_cons hmark hnone, condenseStep_eq_cons hmark hfence]
    rfl
  | cons last marks =>
    -- elsewhere the last mark decides, and it stands in front of the fence
    by_cases hjoins : last.Joins mark
    · cases last with
      | text before =>
        cases mark with
        | text text =>
          cases text with
          | nil => exact absurd rfl hmark
          | cons c text => rfl
        | _ => cases hjoins
      | otherwise => cases mark <;> first | rfl | cases hjoins
      | forEachElse => cases mark <;> first | rfl | cases hjoins
      | _ => cases hjoins
    · have hlast (others : List Mark) : ∀ other ∈ (last :: others).head?, ¬ other.Joins mark := by
        rintro other ⟨⟩
        exact hjoins
      rw [condenseStep_eq_cons hmark (hlast marks), List.cons_append,
        condenseStep_eq_cons hmark (hlast _)]
      rfl

theorem foldl_condenseStep_fence {fence : Mark} (h : ∀ mark, ¬ fence.Joins mark)
    (marks listed front : List Mark) :
    marks.foldl condenseStep (listed ++ fence :: front) =
      marks.foldl condenseStep listed ++ fence :: front := by
  induction marks generalizing listed with
  | nil => rfl
  | cons mark marks ih => rw [List.foldl_cons, condenseStep_fence h, ih, List.foldl_cons]

/-- A mark that joins no other and that no other joins parts a row. -/
theorem condense_fence {fence : Mark} (h : ∀ mark, ¬ fence.Joins mark)
    (hjoins : fence.mayJoin = false) (before behind : List Mark) :
    condense (before ++ fence :: behind) = condense before ++ fence :: condense behind := by
  have hfence : condenseStep (before.foldl condenseStep []) fence =
      fence :: before.foldl condenseStep [] := by
    refine condenseStep_eq_cons (fun htext => ?_) fun last _ hlast => ?_
    · subst htext
      cases hjoins
    · rw [hlast.mayJoin] at hjoins
      cases hjoins
  have hfold := foldl_condenseStep_fence h behind [] (before.foldl condenseStep [])
  rw [List.nil_append] at hfold
  rw [condense, List.foldl_append, List.foldl_cons, hfence, hfold]
  simp [condense]

/-- What is read behind the opening of a definition is condensed by itself. -/
theorem marks_run_definition {later : Bool} {n : Nesting} {span : Span} {name : String}
    {parameters : List String} {items : List Item} {nodes : List Node}
    (h : Nesting.run later (n.openBlock (.definition span name parameters)) items =
      .ok ⟨(n.openBlock (.definition span name parameters)).opened, nodes⟩) :
    marksOf nodes.reverse = condense (items.flatMap Item.marks) := by
  have hseated : Nesting.Seated (n.openBlock (.definition span name parameters)).nodes := trivial
  have hlists := (Nesting.lists_run hseated h).marks_eq
  have hjoins : ∀ mark, ¬ (Mark.define name parameters).Joins mark := fun _ => id
  have hfence := foldl_condenseStep_fence hjoins (items.flatMap Item.marks) [] n.marks.reverse
  have hmarks : Nesting.marks ⟨(n.openBlock (.definition span name parameters)).opened, nodes⟩ =
      n.marks ++ .define name parameters :: marksOf nodes.reverse := by
    simp [Nesting.marks, Nesting.openBlock, marksOfOpened, OpenBlock.marks]
  have hopen : (n.openBlock (.definition span name parameters)).marks.reverse =
      .define name parameters :: n.marks.reverse := by
    rw [Nesting.marks_openBlock, List.reverse_append]
    rfl
  rw [hopen, ← List.nil_append (_ :: _), hfence, hmarks, List.reverse_append, List.reverse_cons,
    List.append_assoc, List.singleton_append] at hlists
  rw [condense, ← List.append_cancel_right hlists, List.reverse_reverse]

/-- The listing of a tree around its last definition. -/
theorem marksOf_nest_lastDefinition {items : List Item} {nodes : List Node}
    (h : nest items = .ok nodes) (l : LastDefinition items) :
    marksOf nodes = condense (l.before.flatMap Item.marks) ++ .define l.name l.parameters ::
      (condense (l.inner.flatMap Item.marks) ++
        .endDefine :: condense (l.behind.flatMap Item.marks)) := by
  rw [marksOf_nest h, congrArg (List.flatMap Item.marks) l.items_eq]
  simp only [List.flatMap_append, List.flatMap_cons, Item.marks, Directive.marks,
    List.singleton_append]
  rw [condense_fence (fun _ => id) rfl, condense_fence (fun _ => id) rfl]

/-! ### The names of the definitions -/

/-- The name of the definition that a mark opens. -/
def Mark.definedName? : Mark → Option String
  | .define name _ => some name
  | _ => none

mutual

theorem Node.definedNames_eq : (node : Node) →
    node.definedNames = node.marks.filterMap Mark.definedName?
  | .choose branches otherwise => by
    have hbranches := definedNamesIn_eq .ifThen (fun _ => rfl) branches
    have hotherwise := definedNamesOf_eq otherwise
    cases otherwise <;>
      simp_all [Node.definedNames, Node.marks, Mark.definedName?, marksOf, List.filterMap_cons]
  | .forEach item collection body otherwise => by
    have hbody := definedNamesOf_eq body
    have hotherwise := definedNamesOf_eq otherwise
    cases otherwise <;>
      simp_all [Node.definedNames, Node.marks, Mark.definedName?, marksOf, List.filterMap_cons]
  | .define name parameters body => by
    simp [Node.definedNames, Node.marks, Mark.definedName?, definedNamesOf_eq body,
      List.filterMap_cons]
  | .text _ | .output .. | .declare .. | .evaluate _ | .leave | .run .. | .dispatch => rfl

/-- The names of the definitions in a tree are those that its marks open. -/
theorem definedNamesOf_eq : (nodes : List Node) →
    definedNamesOf nodes = (marksOf nodes).filterMap Mark.definedName?
  | [] => rfl
  | node :: nodes => by
    rw [definedNamesOf, marksOf, List.filterMap_append, node.definedNames_eq,
      definedNamesOf_eq nodes]

theorem definedNamesIn_eq (opening : Expression → Mark)
    (hopening : ∀ condition, (opening condition).definedName? = none) : (branches : List Branch) →
    definedNamesIn branches = (marksOfBranches opening branches).filterMap Mark.definedName?
  | [] => rfl
  | .mk condition body :: branches => by
    rw [definedNamesIn, marksOfBranches, List.filterMap_cons_none (hopening condition),
      List.filterMap_append, definedNamesOf_eq body, definedNamesIn_eq .elseIf (fun _ => rfl) branches]

end

/-- Condensing leaves the marks of definitions as they are. -/
theorem filterMap_condense (marks : List Mark) :
    (condense marks).filterMap Mark.definedName? = marks.filterMap Mark.definedName? := by
  have hstep (listed : List Mark) (mark : Mark) :
      (condenseStep listed mark).filterMap Mark.definedName? =
        (mark :: listed).filterMap Mark.definedName? := by
    fun_cases condenseStep listed mark <;> simp [Mark.definedName?, List.filterMap_cons]
  have hfold (listed : List Mark) : (marks.foldl condenseStep listed).filterMap Mark.definedName? =
      (marks.reverse ++ listed).filterMap Mark.definedName? := by
    induction marks generalizing listed with
    | nil => rfl
    | cons mark marks ih =>
      rw [List.foldl_cons, ih, List.filterMap_append, hstep, List.reverse_cons, List.append_assoc,
        List.filterMap_append]
      rfl
  rw [condense, List.filterMap_reverse, hfold, List.append_nil, List.filterMap_reverse,
    List.reverse_reverse]

/-- Only the directive that opens a definition has the mark of one. -/
theorem Item.definedName?_of_mem {item : Item} {mark : Mark} (h : item.opensDefinition = false)
    (hmark : mark ∈ item.marks) : mark.definedName? = none := by
  rcases item with text | ⟨directive, span⟩
  · obtain rfl : mark = .text text := by simpa [Item.marks] using hmark
    rfl
  · cases directive with
    | define => cases h
    | statements listed =>
      obtain ⟨s, -, rfl⟩ := List.mem_map.mp hmark
      cases s <;> rfl
    | _ =>
      obtain rfl := List.mem_singleton.mp hmark
      rfl

/-- The tree of a row defines something exactly if the row closes a definition. -/
theorem definedNamesOf_nest {items : List Item} {nodes : List Node} (h : nest items = .ok nodes) :
    definedNamesOf nodes = [] ↔ endsDefinition items = false := by
  have hderives : Derives (.block false) items := (nest_isOk items).mp (by rw [h]; rfl)
  rw [definedNamesOf_eq, marksOf_nest h, filterMap_condense]
  cases hends : endsDefinition items with
  | true =>
    obtain ⟨l⟩ := hderives.lastDefinition hends
    rw [l.items_eq]
    simp [Item.marks, Directive.marks, Mark.definedName?, List.filterMap_cons]
  | false =>
    refine iff_of_true (List.filterMap_eq_nil_iff.mpr fun mark hmark => ?_) rfl
    obtain ⟨item, hitem, hmark⟩ := List.mem_flatMap.mp hmark
    exact Item.definedName?_of_mem (hderives.undefining hends item hitem).1 hmark

end Stencil
