/-
Stencil/Proofs/Faults.lean

Where faults lie.  A fault of compiling that is not one of the configuration lies at a
place within the source: where a delimiter is not closed, where the code of a directive
cannot be read, or where a directive stands that does not fit its block.  A template
that compiles keeps its expressions in their places (`compile_inPlace`), and a fault
of rendering lies at one of them, or at a `run` directive.

The main result, `faults_within`, says so of all sources, configurations and renders.
-/
import Stencil.Proofs.Agreement
import Stencil.Proofs.Compiling
import Stencil.Proofs.DirectivePlaces

namespace Stencil

open Text

/-! ### Nesting -/

/-- The place of the directive that opened a block. -/
def OpenBlock.opener : OpenBlock → Span
  | .branch span .. | .otherwise span .. | .loop span .. | .loopElse span .. | .definition span .. =>
    span

/-- The blocks that are open were opened within the source. -/
def Nesting.Placed (source : List Char) (n : Nesting) : Prop :=
  ∀ entry ∈ n.opened, Within source entry.2.opener

section Nest

variable {source : List Char} {n : Nesting}

theorem Nesting.Placed.addText (h : n.Placed source) (text : List Char) :
    (n.addText text).Placed source := by
  fun_cases Nesting.addText n text <;> exact h

theorem Nesting.Placed.addAll (h : n.Placed source) (statements : List Statement) :
    (statements.foldl (fun n s => n.add (.ofStatement s)) n).Placed source := by
  induction statements generalizing n with
  | nil => exact h
  | cons s statements ih =>
    have hadd : (n.add (.ofStatement s)).Placed source := h
    exact ih hadd

/-- A directive that does not fit is reported where it stands. -/
theorem step_inPlace (h : n.Placed source) (directive : Directive) {span : Span}
    (hspan : Within source span) (last : Bool) :
    InPlace source (Nesting.Placed source) (n.step directive span last) := by
  have hopen (block : OpenBlock) (hblock : block.opener = span) :
      (n.openBlock block).Placed source :=
    List.forall_mem_cons.mpr ⟨by rw [hblock]; exact hspan, h⟩
  cases directive with
  | output | run => exact h
  | statements statements => exact h.addAll statements
  | forEachBreak =>
    simp only [Nesting.step]
    split
    · exact h
    · exact hspan
  | ifThen | forEach | define => exact hopen _ rfl
  | elseIf | otherwise | endIf | forEachElse | endForEach | endDefine =>
    obtain ⟨opened, nodes⟩ := n
    rcases opened with - | ⟨⟨before, block⟩, opened⟩
    · exact hspan
    · obtain ⟨hblock, hopened⟩ := List.forall_mem_cons.mp h
      cases block <;>
        first
          | exact hspan
          | exact hopened
          | exact List.forall_mem_cons.mpr ⟨hblock, hopened⟩

theorem readAll_inPlace {items : List Item} (h : n.Placed source)
    (hitems : ∀ directive span, .directive directive span ∈ items → Within source span) :
    InPlace source (fun _ => True) (n.readAll items) := by
  induction items generalizing n with
  | nil =>
    obtain ⟨opened, nodes⟩ := n
    rcases opened with - | ⟨⟨before, block⟩, opened⟩
    · trivial
    · have hblock := h _ List.mem_cons_self
      cases block <;> exact hblock
  | cons item items ih =>
    have hrest := fun directive span hitem =>
      hitems directive span (List.mem_cons_of_mem item hitem)
    cases item with
    | text text => exact ih (h.addText text) hrest
    | directive directive span =>
      exact (step_inPlace h directive (hitems directive span List.mem_cons_self) _).bind
        fun next hnext => ih hnext hrest

end Nest

/-! ### Compiling -/

section Compile

variable {d : Delimiters} {source : List Char} {pieces : List Piece} {items : List Item}

/-- The body of a directive is anchored where it is written. -/
theorem anchored_of_layout {body : Slice} (hwhole : written d pieces = source)
    (hbody : .directive body ∈ layout d 0 pieces) : body.Anchored source := by
  obtain ⟨before, raw, after, hwritten, rfl⟩ := layout_directive hbody
  refine ⟨before ++ d.left, raw, d.right ++ after, true, ?_, ?_, ?_⟩
  · rw [← hwhole, hwritten]
    simp
  · simp
  · exact (mirrors_blankComments raw).1 true .code nofun

theorem mapM_inPlace {α β : Type} {p : β → Prop} {f : α → Except CompileFault β} {as : List α}
    (h : ∀ a ∈ as, InPlace source p (f a)) :
    InPlace source (fun bs => ∀ b ∈ bs, p b) (as.mapM f) := by
  induction as with
  | nil => exact nofun
  | cons a as ih =>
    obtain ⟨ha, has⟩ := List.forall_mem_cons.mp h
    rw [List.mapM_cons]
    refine ha.bind fun b hb => (ih has).bind fun bs hbs => ?_
    exact List.forall_mem_cons.mpr ⟨hb, hbs⟩

/-- A piece of a row is in its place. -/
def Item.Placed (source : List Char) : Item → Prop
  | .text _ => True
  | .directive taken span => Within source span ∧ taken.Placed source

theorem ofSegment_inPlace {part : Segment} (hwhole : written d pieces = source)
    (hpart : part ∈ layout d 0 pieces) :
    InPlace source (Item.Placed source) (Item.ofSegment part) := by
  cases part with
  | literal text =>
    rw [Item.ofSegment]
    trivial
  | directive body =>
    have hbody := anchored_of_layout hwhole hpart
    exact (classify_inPlace hbody).bind fun directive hdirective => ⟨hbody.within, hdirective⟩

/-- A mark has its expressions, and the place that it names, within the source. -/
structure Mark.Placed (source : List Char) (mark : Mark) : Prop where
  expressions : ∀ e ∈ mark.expressions, e.Placed source
  span : ∀ name arguments span, mark = .run name arguments span → Within source span

theorem Directive.Placed.mark {directive : Directive} {span : Span} {mark : Mark}
    (h : directive.Placed source) (hspan : Within source span) (hmark : mark ∈ directive.marks span) :
    mark.Placed source := by
  refine ⟨h span mark hmark, ?_⟩
  rintro name arguments place rfl
  cases directive with
  | run =>
    obtain ⟨-, -, rfl⟩ : name = _ ∧ arguments = _ ∧ place = span := by
      simpa [Directive.marks] using hmark
    exact hspan
  | statements listed =>
    obtain ⟨s, -, hs⟩ := List.mem_map.mp hmark
    cases s <;> cases hs
  | _ => simp [Directive.marks] at hmark

theorem nest_inPlace (hitems : ∀ item ∈ items, item.Placed source) :
    InPlace source (fun nodes => ∀ mark ∈ marksOf nodes, mark.Placed source) (nest items) := by
  have hread : InPlace source (fun _ => True) (nest items) :=
    readAll_inPlace nofun fun directive span hitem => (hitems _ hitem).1
  rcases hnest : nest items with fault | nodes
  · rwa [hnest] at hread
  · refine forall_marksOf_nest hnest (fun _ => ⟨nofun, nofun⟩) fun directive span hitem mark hmark => ?_
    obtain ⟨hspan, hdirective⟩ := hitems _ hitem
    exact hdirective.mark hspan hmark

theorem segments_inPlace (hl : d.left ≠ []) (hr : d.right ≠ []) (source : List Char) :
    InPlace source (fun parts => ∃ pieces, written d pieces = source ∧ parts = layout d 0 pieces)
      (segments d source) := by
  obtain ⟨pieces, rest, hscan, rfl | ⟨complaint, hunclosed⟩⟩ := exists_scans hl hr source
  · rw [segments_of_scans hl hr hscan]
    exact ⟨pieces, by simpa using hscan.written_append, rfl⟩
  · rw [segments_of_unclosed hl hr hscan hunclosed]
    have hsource := hscan.written_append
    have hstart := boundary_append (written d pieces) rest
    rw [hsource] at hstart
    exact ⟨hstart, boundary_bytes source, hstart.le⟩

/-- Compiling with delimiters that are not empty gives a template with its expressions in their places,
or a fault that lies within the source. -/
theorem compile_inPlace (source : String) {c : Configuration} (hdelimiters : c.delimiters = .ok d) :
    InPlace source.toList (fun t => ∀ mark ∈ marksOf t.nodes, mark.Placed source.toList)
      (Template.compile source c) := by
  obtain ⟨hl, hr⟩ := Configuration.delimiters_eq_ok hdelimiters
  rw [Template.compile, hdelimiters]
  change InPlace _ _ (segments d source.toList >>= _)
  refine (segments_inPlace hl hr source.toList).bind ?_
  rintro _ ⟨pieces, hwhole, rfl⟩
  have hnodes : InPlace source.toList (fun nodes => ∀ mark ∈ marksOf nodes, mark.Placed source.toList)
      (nodesOfSegments (layout d 0 pieces)) := by
    rw [nodesOfSegments]
    exact (mapM_inPlace fun part hpart => ofSegment_inPlace hwhole hpart).bind fun items => nest_inPlace
  exact hnodes.bind fun nodes hnodes => hnodes

end Compile

/-! ### Rendering -/

/-- A fault of rendering lies within the source, and a name that is not bound is written there. -/
def RenderFault.Placed (source : List Char) : RenderFault → Prop
  | .unbound name span => Spells source span name.toList
  | .mismatch _ span | .callDepth _ _ span => Within source span

/-- The accord of two renders of nodes that are in their places. -/
def Accord.ofPlaces (source : List Char) : Accord where
  seen _ := True
  fault := RenderFault.Placed source
  mark := Mark.Placed source
  guard _ := True

/-- A render of nodes that are in their places stops at one of them. -/
theorem render_fault_placed {source : List Char} {t : Template}
    (ht : ∀ mark ∈ marksOf t.nodes, mark.Placed source) {host : Host} {context : Value} {key : String}
    {fault : RenderFault} (h : t.render host context key = .error fault) : fault.Placed source := by
  have hstart : (Accord.ofPlaces source).Pages (startPage context key) (startPage context key) :=
    ⟨.refl _, rfl, rfl, nofun⟩
  have hrender : Alike (Accord.ofPlaces source).Pages (Accord.ofPlaces source).fault
      (renderNodes (t.settings host context key)
        (runSubtemplate (t.settings host context key) maxDepth) t.nodes)
      (renderNodes (t.settings host context key)
        (runSubtemplate (t.settings host context key) maxDepth) t.nodes) := by
    refine alike_whole_self (fun mark hmark e he => ?_) (fun name arguments span hmark => ?_)
      (fun _ _ _ _ => ?_) ⟨ht, fun _ _ => trivial⟩
    · have hplaced := Mark.Placed.expressions hmark e he
      exact ⟨fun part hpart _ => hplaced.within part hpart,
        fun span name hpart => ⟨trivial, hplaced.spells span name hpart⟩⟩
    · exact Mark.Placed.span hmark name arguments span rfl
    · exact (boundary_zero source).within_at
  rw [Template.render_eq_resultOf] at h
  exact (hrender _ _ hstart).fault_of_resultOf h

/-! ### All faults -/

/-- A configuration has no delimiters exactly if one of them is empty. -/
theorem Configuration.delimiters_eq_error {c : Configuration} {fault : CompileFault} :
    c.delimiters = .error fault ↔
      fault = .emptyDelimiter ∧ (c.leftDelimiter = "" ∨ c.rightDelimiter = "") := by
  rw [Configuration.delimiters]
  split
  · next hempty =>
    have hempty : c.leftDelimiter = "" ∨ c.rightDelimiter = "" := by simpa using hempty
    exact ⟨fun h => ⟨(Except.error.inj h).symm, hempty⟩, fun h => by rw [h.1]⟩
  · next hempty =>
    have hempty : ¬ (c.leftDelimiter = "" ∨ c.rightDelimiter = "") := by simpa using hempty
    exact ⟨fun h => (by cases h), fun h => absurd h.2 hempty⟩

/-- **Faults are of their own phase and lie within the source.**  Compiling fails with a wrong
configuration exactly if a delimiter is empty, and otherwise at a place in the source.  Rendering fails
because a name is not bound, an operation does not fit its value or runs are nested too deep, and each
of these lies at a place in the source: the name that is not bound is exactly what is written there. -/
theorem faults_within (source : String) (c : Configuration) :
    (Template.compile source c = .error .emptyDelimiter ↔
      c.leftDelimiter = "" ∨ c.rightDelimiter = "") ∧
    (∀ fault, Template.compile source c = .error fault → fault ≠ .emptyDelimiter →
      ∃ complaint span, fault = .malformed complaint span ∧ Within source.toList span) ∧
    (∀ t host context key fault, Template.compile source c = .ok t →
      t.render host context key = .error fault →
      (∃ name span, fault = .unbound name span ∧ Within source.toList span ∧
        Spells source.toList span name.toList) ∨
      (∃ cause span, fault = .mismatch cause span ∧ Within source.toList span) ∨
      (∃ name limit span, fault = .callDepth name limit span ∧ Within source.toList span)) := by
  -- a delimiter that is empty is the first fault that is looked for, and there is no template then
  rcases hdelimiters : c.delimiters with fault | d
  · obtain ⟨rfl, hempty⟩ := Configuration.delimiters_eq_error.mp hdelimiters
    have hcompile : Template.compile source c = .error .emptyDelimiter := by
      rw [Template.compile, hdelimiters]
      rfl
    refine ⟨⟨fun _ => hempty, fun _ => hcompile⟩, fun fault hfault hne => ?_,
      fun t host context key fault ht => ?_⟩
    · rw [hcompile] at hfault
      exact absurd (Except.error.inj hfault).symm hne
    · rw [hcompile] at ht
      cases ht
  · have hplaced := compile_inPlace source hdelimiters
    have hne : ¬ (c.leftDelimiter = "" ∨ c.rightDelimiter = "") := fun hempty => by
      have herror := Configuration.delimiters_eq_error.mpr ⟨rfl, hempty⟩
      rw [hdelimiters] at herror
      cases herror
    refine ⟨⟨fun hcompile => ?_, fun hempty => absurd hempty hne⟩, fun fault hfault hconfiguration => ?_,
      fun t host context key fault ht hrender => ?_⟩
    · rw [hcompile] at hplaced
      exact hplaced.elim
    · rw [hfault] at hplaced
      cases fault with
      | emptyDelimiter => exact absurd rfl hconfiguration
      | malformed complaint span => exact ⟨complaint, span, rfl, hplaced⟩
    · -- what the template holds is in its place, so a fault of the render has the place of one of its
      -- marks
      rw [ht] at hplaced
      have hfault := render_fault_placed hplaced hrender
      cases fault with
      | unbound name span => exact .inl ⟨name, span, rfl, hfault.within, hfault⟩
      | mismatch cause span => exact .inr (.inl ⟨cause, span, rfl, hfault⟩)
      | callDepth name limit span => exact .inr (.inr ⟨name, limit, span, rfl, hfault⟩)

/-- A name that is not bound, in an argument list behind a comment. -/
theorem faults_within_argument :
    let t : Template := ⟨[.define "f" ["x"] [], .dispatch,
      .run "f" [.identifier ⟨41, 42⟩ "y"] ⟨28, 44⟩], true, "http:"⟩
    let host : Host := fun _ _ _ => pure (.error "")
    Template.compile "<%define f(x)%><%/define%><%run // é\nf( y )%>" {} = .ok t ∧
    t.render host (.object (.given 0) []) = .error (.unbound "y" ⟨41, 42⟩) ∧
    Spells "<%define f(x)%><%/define%><%run // é\nf( y )%>".toList ⟨41, 42⟩ ['y'] := by
  intro t host
  have hcompile : Template.compile "<%define f(x)%><%/define%><%run // é\nf( y )%>" {} = .ok t := rfl
  have hrender : t.render host (.object (.given 0) []) = .error (.unbound "y" ⟨41, 42⟩) := rfl
  refine ⟨hcompile, hrender, ?_⟩
  rcases (faults_within _ _).2.2 t host _ "" _ hcompile hrender with
    ⟨name, span, hfault, -, hspells⟩ | ⟨cause, span, hfault, -⟩ | ⟨name, limit, span, hfault, -⟩
  · cases hfault
    exact hspells
  · cases hfault
  · cases hfault

end Stencil
