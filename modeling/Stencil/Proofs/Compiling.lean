/-
Stencil/Proofs/Compiling.lean

The stages of compiling.  `Stages c source d pieces items t` holds them side by side:
the delimiters, the pieces that the source is read into, and what the directives of
the pieces were classified as.  A template that compiles has them
(`Template.stages`), and every classified directive stands behind a left delimiter
of the source (`Stages.directive_of_mem`).
-/
import Stencil.Proofs.Listing
import Stencil.Proofs.Segmentation

namespace Stencil

open Text

/-- The delimiters of a configuration are not empty. -/
theorem Configuration.delimiters_eq_ok {c : Configuration} {d : Delimiters}
    (h : c.delimiters = .ok d) : d.left ≠ [] ∧ d.right ≠ [] := by
  rw [Configuration.delimiters] at h
  split at h
  · cases h
  · next hempty =>
    cases h
    simpa [String.isEmpty_iff] using hempty

/-- Where a list is mapped without a fault, its head is and its tail is. -/
theorem exists_of_mapM_cons {α β ε : Type} {f : α → Except ε β} {a : α} {as : List α} {bs : List β}
    (h : (a :: as).mapM f = .ok bs) :
    ∃ first rest, f a = .ok first ∧ as.mapM f = .ok rest ∧ bs = first :: rest := by
  rw [List.mapM_cons] at h
  rcases ha : f a with fault | first
  · rw [ha] at h
    cases h
  rcases has : as.mapM f with fault | rest
  · rw [ha, has] at h
    cases h
  rw [ha, has] at h
  cases h
  exact ⟨first, rest, rfl, rfl, rfl⟩

/-- Where a list is mapped without a fault, every image comes from one of its elements. -/
theorem exists_of_mem_mapM {α β ε : Type} {f : α → Except ε β} {as : List α} {bs : List β} {b : β}
    (h : as.mapM f = .ok bs) (hb : b ∈ bs) : ∃ a ∈ as, f a = .ok b := by
  induction as generalizing bs with
  | nil =>
    cases h
    cases hb
  | cons a as ih =>
    obtain ⟨first, rest, ha, has, rfl⟩ := exists_of_mapM_cons h
    rcases List.mem_cons.mp hb with rfl | hb
    · exact ⟨a, List.mem_cons_self, ha⟩
    · obtain ⟨other, hother, hf⟩ := ih has hb
      exact ⟨other, List.mem_cons_of_mem a hother, hf⟩

/-- Where a list is mapped without a fault, every element has an image. -/
theorem exists_image_of_mapM {α β ε : Type} {f : α → Except ε β} {as : List α} {bs : List β} {a : α}
    (h : as.mapM f = .ok bs) (ha : a ∈ as) : ∃ b, f a = .ok b := by
  induction as generalizing bs with
  | nil => cases ha
  | cons first as ih =>
    obtain ⟨b, rest, hfirst, hrest, -⟩ := exists_of_mapM_cons h
    rcases List.mem_cons.mp ha with rfl | ha
    · exact ⟨b, hfirst⟩
    · exact ih hrest ha

/-- The piece of a directive is what its body was classified as, at its place. -/
theorem Item.eq_of_ofSegment {body : Slice} {item : Item} (h : Item.ofSegment (.directive body) = .ok item) :
    ∃ taken, classify body = .ok taken ∧ item = .directive taken body.span := by
  rw [Item.ofSegment] at h
  rcases hclassify : classify body with fault | taken
  · rw [hclassify] at h
    cases h
  · rw [hclassify] at h
    cases h
    exact ⟨taken, rfl, rfl⟩

/-- Segments that make a tree are classified, and what they are classified as is nested. -/
theorem exists_of_nodesOfSegments {parts : List Segment} {nodes : List Node}
    (h : nodesOfSegments parts = .ok nodes) :
    ∃ items, parts.mapM Item.ofSegment = .ok items ∧ nest items = .ok nodes := by
  rw [nodesOfSegments] at h
  rcases hitems : parts.mapM Item.ofSegment with fault | items
  · rw [hitems] at h
    cases h
  · rw [hitems] at h
    exact ⟨items, rfl, h⟩

/-- What holds of all marks of a row and of all texts holds of all marks that condensing leaves. -/
theorem forall_condense {p : Mark → Prop} {marks : List Mark} (htext : ∀ chars, p (.text chars))
    (hmarks : ∀ mark ∈ marks, p mark) : ∀ mark ∈ condense marks, p mark := by
  have hstep (listed : List Mark) (next : Mark) (hnext : p next) (hlisted : ∀ mark ∈ listed, p mark) :
      ∀ mark ∈ condenseStep listed next, p mark := by
    fun_cases condenseStep listed next <;> simp_all
  have hfold (listed : List Mark) (hlisted : ∀ mark ∈ listed, p mark) :
      ∀ mark ∈ marks.foldl condenseStep listed, p mark := by
    induction marks generalizing listed with
    | nil => exact hlisted
    | cons next marks ih =>
      obtain ⟨hnext, hrest⟩ := List.forall_mem_cons.mp hmarks
      exact ih hrest _ (hstep listed next hnext hlisted)
  intro mark hmark
  rw [condense, List.mem_reverse] at hmark
  exact hfold [] (List.forall_mem_nil p) mark hmark

/-- What holds of all texts and of the marks of all directives holds of all that a tree lists. -/
theorem forall_marksOf_nest {items : List Item} {nodes : List Node} {p : Mark → Prop}
    (h : nest items = .ok nodes) (htext : ∀ chars, p (.text chars))
    (hdirective : ∀ directive span, .directive directive span ∈ items →
      ∀ mark ∈ directive.marks span, p mark) :
    ∀ mark ∈ marksOf nodes, p mark := by
  rw [marksOf_nest h]
  refine forall_condense htext fun mark hmark => ?_
  obtain ⟨item, hitem, hmark⟩ := List.mem_flatMap.mp hmark
  cases item with
  | text chars =>
    obtain rfl := List.mem_singleton.mp hmark
    exact htext chars
  | directive directive span => exact hdirective directive span hitem mark hmark

/-- The stages on the way from a source to its template. -/
structure Stages (c : Configuration) (source : String) (d : Delimiters) (pieces : List Piece)
    (items : List Item) (t : Template) : Prop where
  delimiters : c.delimiters = .ok d
  scans : Scans d source.toList pieces []
  classified : (layout d 0 pieces).mapM Item.ofSegment = .ok items
  nested : nest items = .ok t.nodes

theorem Template.stages {source : String} {c : Configuration} {t : Template}
    (h : Template.compile source c = .ok t) : ∃ d pieces items, Stages c source d pieces items t := by
  obtain ⟨d, parts, hdelimiters, hparts, hnodes, -, -⟩ := Template.compile_eq_ok h
  obtain ⟨hl, hr⟩ := Configuration.delimiters_eq_ok hdelimiters
  -- a source with a delimiter that nothing closes has no segments
  obtain ⟨pieces, rest, hscan, rfl | ⟨complaint, hunclosed⟩⟩ := exists_scans hl hr source.toList
  · obtain rfl : layout d 0 pieces = parts :=
      Except.ok.inj ((segments_of_scans hl hr hscan).symm.trans hparts)
    obtain ⟨items, hitems, hnest⟩ := exists_of_nodesOfSegments hnodes
    exact ⟨d, pieces, items, hdelimiters, hscan, hitems, hnest⟩
  · rw [segments_of_unclosed hl hr hscan hunclosed] at hparts
    cases hparts

/-- The segment of a directive stands behind a left delimiter, and holds what is written there with its
line comments blanked. -/
theorem layout_directive {d : Delimiters} {offset : Nat} {pieces : List Piece} {body : Slice}
    (h : .directive body ∈ layout d offset pieces) :
    ∃ before raw after, written d pieces = before ++ (d.left ++ raw ++ d.right) ++ after ∧
      body = ⟨offset + bytes before + bytes d.left, blankComments .code raw⟩ := by
  induction pieces generalizing offset with
  | nil => simp [layout] at h
  | cons piece pieces ih =>
    rw [layout, List.mem_append, Option.mem_toList] at h
    rcases h with h | h
    · cases piece with
      | directive raw =>
        obtain rfl : (⟨offset + bytes d.left, blankComments .code raw⟩ : Slice) = body := by
          simpa [Piece.segment?] using h
        exact ⟨[], raw, written d pieces, by simp [Piece.written], by simp⟩
      | literal | comment => simp [Piece.segment?] at h
    · obtain ⟨before, raw, after, hrest, rfl⟩ := ih h
      exact ⟨piece.written d ++ before, raw, after, by simp [hrest], by simp [Nat.add_assoc]⟩

namespace Stages

variable {c : Configuration} {source : String} {d : Delimiters} {pieces : List Piece}
  {items : List Item} {t : Template}

/-- A directive of the row was classified from a segment, and keeps its place. -/
theorem directive_of_mem (h : Stages c source d pieces items t) {directive : Directive} {span : Span}
    (hitem : .directive directive span ∈ items) :
    ∃ body, .directive body ∈ layout d 0 pieces ∧ classify body = .ok directive ∧
      span = body.span := by
  obtain ⟨part, hpart, hclass⟩ := exists_of_mem_mapM h.classified hitem
  cases part with
  | literal part => cases hclass
  | directive body =>
    obtain ⟨taken, hclassify, heq⟩ := Item.eq_of_ofSegment hclass
    cases heq
    exact ⟨body, hpart, hclassify, rfl⟩

/-- No directive stands at the very beginning of the source. -/
theorem start_pos (h : Stages c source d pieces items t) {directive : Directive} {span : Span}
    (hitem : .directive directive span ∈ items) : 0 < span.start := by
  obtain ⟨body, hbody, -, rfl⟩ := h.directive_of_mem hitem
  obtain ⟨before, raw, after, -, rfl⟩ := layout_directive hbody
  have hleft := bytes_pos (Configuration.delimiters_eq_ok h.delimiters).1
  simp only [Slice.span]
  omega

end Stages

end Stencil
