/-
Stencil/Proofs/Seam.lean

Two sources put one behind the other.  If no left delimiter straddles the seam
(`Straddles`), the first source is read as if nothing stood behind it, and the second
as if nothing stood in front, except that literal text at the end of the first goes
on with literal text at the start of the second (`joinPieces`).

* `Scans.append` — the two readings make up a reading of the whole;
* `layout_moved` — the segments of a source that stands further back are its
  segments, moved;
* `nodesOfSegments_joinPieces` — whether text is cut at the seam makes no difference
  to the tree.
-/
import Stencil.Proofs.Compiling
import Stencil.Proofs.MovedCode
import Stencil.Proofs.RowParts

namespace Stencil

open Text

/-! ### Straddling the seam -/

namespace Text

/-- The pattern occurs in the two texts together at a place that begins in `front` and ends in
`back`. -/
def Straddles (pattern front back : List Char) : Prop :=
  ∃ before after, front ++ back = before ++ pattern ++ after ∧
    before.length < front.length ∧ front.length < (before ++ pattern).length

section Straddling

variable {pattern front back : List Char}

/-- What straddles the seam behind a part of a text straddles the one behind the text. -/
theorem Straddles.of_behind {lead : List Char} (h : Straddles pattern front back) :
    Straddles pattern (lead ++ front) back := by
  obtain ⟨before, after, hwhole, hbegin, hend⟩ := h
  refine ⟨lead ++ before, after, by simp [hwhole], ?_, ?_⟩ <;>
    simp only [List.length_append] at hend ⊢ <;> omega

/-- What straddles the seam holds the last character in front of it. -/
theorem Straddles.last_mem (h : Straddles pattern front back) :
    ∃ c ∈ pattern, front.getLast? = some c := by
  obtain ⟨before, after, hwhole, hbegin, hend⟩ := h
  have hinside : front.length - 1 - before.length < pattern.length := by
    rw [List.length_append] at hend
    omega
  refine ⟨pattern[front.length - 1 - before.length], List.getElem_mem hinside, ?_⟩
  have hfront : (front ++ back)[front.length - 1]? = front[front.length - 1]? :=
    List.getElem?_append_left (by omega)
  have hpattern : (before ++ pattern ++ after)[front.length - 1]? =
      pattern[front.length - 1 - before.length]? := by
    rw [List.getElem?_append_left (by omega), List.getElem?_append_right (by omega)]
  rw [List.getLast?_eq_getElem?, ← hfront, hwhole, hpattern, List.getElem?_eq_getElem hinside]

/-- Where the pattern is neither in `front` nor straddles the seam, it occurs in `back` only. -/
theorem occurs_behind {lead rest : List Char} (hno : ¬ pattern <:+: front)
    (hseam : ¬ Straddles pattern front back) (h : front ++ back = lead ++ pattern ++ rest) :
    ∃ before, lead = front ++ before ∧ back = before ++ pattern ++ rest := by
  rcases Nat.lt_or_ge lead.length front.length with hshort | hlong
  · -- the occurrence begins in `front`, and it must end there too
    have hend : (lead ++ pattern).length ≤ front.length :=
      Nat.le_of_not_lt fun hlt => hseam ⟨lead, rest, h, hshort, hlt⟩
    obtain ⟨tail, htail⟩ : lead ++ pattern <+: front :=
      List.prefix_of_prefix_length_le ⟨rest, h.symm⟩ (List.prefix_append _ _) hend
    exact absurd ⟨lead, tail, htail⟩ hno
  · obtain ⟨before, rfl⟩ : front <+: lead :=
      List.prefix_of_prefix_length_le (List.prefix_append _ _)
        ⟨pattern ++ rest, by rw [h, List.append_assoc]⟩ hlong
    refine ⟨before, rfl, ?_⟩
    simpa using h

theorem not_infix_append (hno : ¬ pattern <:+: front) (hseam : ¬ Straddles pattern front back)
    (hback : ¬ pattern <:+: back) : ¬ pattern <:+: front ++ back := by
  rintro ⟨lead, rest, h⟩
  obtain ⟨before, -, rfl⟩ := occurs_behind hno hseam h.symm
  exact hback ⟨before, rest, rfl⟩

/-- Behind a text without the pattern, the first occurrence is still the first. -/
theorem FirstBehind.append_left {before after : List Char} (h : FirstBehind pattern before)
    (hno : ¬ pattern <:+: front) (hseam : ¬ Straddles pattern front (before ++ pattern ++ after)) :
    FirstBehind pattern (front ++ before) := by
  intro lead rest hlead
  have hwhole : front ++ (before ++ pattern ++ after) = lead ++ pattern ++ (rest ++ after) := by
    rw [← List.append_assoc _ rest after, ← hlead]
    simp
  obtain ⟨inner, -, hinner⟩ := occurs_behind hno hseam hwhole
  have hcancel : before ++ pattern ++ after = inner ++ pattern ++ rest ++ after := by simpa using hinner
  exact h inner rest (List.append_cancel_right hcancel)

end Straddling

end Text

/-! ### Reading on behind the seam -/

/-- Two rows of pieces as one: literal text goes on over the seam. -/
def joinPieces : List Piece → List Piece → List Piece
  | [], back => back
  | [.literal text], .literal text' :: back => .literal (text ++ text') :: back
  | piece :: front, back => piece :: joinPieces front back

variable {d : Delimiters} {source rest back : List Char} {piece : Piece} {pieces others : List Piece}

theorem Closes.append {inside : List Char} (h : Closes d inside piece rest) (back : List Char) :
    Closes d (inside ++ back) piece (rest ++ back) := by
  cases h with
  | comment hfirst => simpa using Closes.comment hfirst
  | directive hstar hfirst => simpa using Closes.directive hstar hfirst

theorem Unclosed.left_prefix {complaint : Complaint} (h : Unclosed d rest complaint) :
    d.left <+: rest := by
  cases h <;> exact List.prefix_append _ _

/-- The last literal text of a source is read on behind the seam. -/
theorem scans_tail {text : List Char} (ht : text ≠ []) (hno : ¬ d.left <:+: text)
    (hback : Scans d back others rest) (hrest : rest = [] ∨ d.left <+: rest)
    (hseam : ¬ Straddles d.left text back) :
    Scans d (text ++ back) (joinPieces [.literal text] others) rest := by
  -- where a delimiter follows at once, the text ends with the source
  have hends (inside : List Char) (hleft : back = d.left ++ inside) : FirstBehind d.left text := by
    have hleading : ¬ Straddles d.left text ([] ++ d.left ++ inside) := by rwa [hleft] at hseam
    have hfirst := (firstBehind_nil d.left).append_left hno hleading
    rwa [List.append_nil] at hfirst
  cases hback with
  | stop =>
    rcases hrest with rfl | ⟨inside, rfl⟩
    · rw [List.append_nil]
      exact .step (.tail ht hno) (.stop [])
    · rw [← List.append_assoc]
      exact .step (.literal ht (hends inside rfl)) (.stop _)
  | step htake hscan =>
    cases htake with
    | @literal text' inside ht' hfirst =>
      have hlonger := hfirst.append_left hno hseam
      have hwhole := Scans.step (.literal (by simp [ht]) hlonger) hscan
      simpa [joinPieces] using hwhole
    | tail ht' hno' =>
      exact .step (.tail (by simp [ht]) (not_infix_append hno hseam hno')) hscan
    | @delimited inside _ piece hclose =>
      have hwhole := Scans.step (.literal ht (hends inside rfl)) (.step (.delimited hclose) hscan)
      cases hclose <;> simpa [joinPieces] using hwhole

/-- Two sources that are read one by one are read together, if no left delimiter straddles the
seam. -/
theorem Scans.append (h : Scans d source pieces []) (hl : d.left ≠ [])
    (hback : Scans d back others rest) (hrest : rest = [] ∨ d.left <+: rest)
    (hseam : ¬ Straddles d.left source back) :
    Scans d (source ++ back) (joinPieces pieces others) rest := by
  -- the seam lies behind all that is left of the first source
  generalize hend : ([] : List Char) = last at h
  induction h with
  | stop =>
    subst hend
    exact hback
  | @step source middle last piece pieces htake hscan ih =>
    subst hend
    have hwritten := htake.written_append
    have hmiddle : ¬ Straddles d.left middle back := fun hs => hseam (hwritten ▸ hs.of_behind)
    specialize ih hmiddle rfl
    cases htake with
    | tail ht hno =>
      cases hscan with
      | stop => exact scans_tail ht hno hback hrest hseam
      | step htake => exact absurd rfl (htake.source_ne_nil hl)
    | @literal text inside ht hfirst =>
      -- the delimiter behind the text is read, so a piece follows
      have hne : pieces ≠ [] := by
        rintro rfl
        generalize hmiddle : d.left ++ inside = middle at hscan
        cases hscan
        exact hl (List.append_eq_nil_iff.mp hmiddle).1
      obtain ⟨next, pieces, rfl⟩ := List.exists_cons_of_ne_nil hne
      rw [joinPieces.eq_3 _ _ _ (by simp), List.append_assoc]
      rw [List.append_assoc] at ih ⊢
      exact .step (by simpa using Takes.literal ht hfirst) ih
    | @delimited inside middle piece hclose =>
      have htakes : Takes d (d.left ++ (inside ++ back)) piece (middle ++ back) :=
        .delimited (hclose.append back)
      rw [List.append_assoc]
      cases hclose <;> exact .step htakes ih

/-! ### Segments on both sides of the seam -/

theorem layout_append (d : Delimiters) (offset : Nat) (pieces others : List Piece) :
    layout d offset (pieces ++ others) =
      layout d offset pieces ++ layout d (offset + bytes (written d pieces)) others := by
  induction pieces generalizing offset with
  | nil => rfl
  | cons piece pieces ih =>
    rw [List.cons_append, layout, ih, layout, written_cons, bytes_append, List.append_assoc,
      Nat.add_assoc]

/-- The segments of pieces that stand further back. -/
theorem layout_moved (d : Delimiters) (k offset : Nat) (pieces : List Piece) :
    layout d (k + offset) pieces = (layout d offset pieces).map (·.moved k) := by
  induction pieces generalizing offset with
  | nil => rfl
  | cons piece pieces ih =>
    rw [layout, layout, List.map_append, Nat.add_assoc, ih]
    congr 1
    cases piece with
    | directive raw => simp [Piece.segment?, Segment.moved, Slice.moved, Nat.add_assoc]
    | literal | comment => rfl

theorem Nesting.addText_append (n : Nesting) (text text' : List Char) :
    n.addText (text ++ text') = (n.addText text).addText text' := by
  obtain ⟨opened, nodes⟩ := n
  rcases text with - | ⟨c, text⟩
  · rfl
  rcases text' with - | ⟨c', text'⟩
  · rw [List.append_nil, addText]
  have hjoined : String.ofList (c :: text ++ c' :: text') =
      String.ofList (c :: text) ++ String.ofList (c' :: text') := String.ofList_append
  -- the second text goes on with the first, whatever that one goes on with
  rcases nodes with - | ⟨node, nodes⟩
  · exact congrArg (fun joined => (⟨opened, [.text joined]⟩ : Nesting)) hjoined
  · cases node with
    | text before =>
      refine congrArg (fun joined => (⟨opened, .text joined :: nodes⟩ : Nesting)) ?_
      rw [hjoined, String.append_assoc]
    | _ => exact congrArg (fun joined => (⟨opened, .text joined :: _⟩ : Nesting)) hjoined

/-- Text that is cut in two makes the same tree. -/
theorem nest_cut (items others : List Item) (text text' : List Char) :
    nest (items ++ .text (text ++ text') :: others) =
      nest (items ++ .text text :: .text text' :: others) := by
  simp only [nest, Nesting.readAll_append, endsDefinition_cons, Item.endsDefinition, Bool.false_or,
    Nesting.readAll, Nesting.addText_append]

theorem nodesOfSegments_cut (front back : List Segment) (text text' : List Char) (o o' o'' : Nat) :
    nodesOfSegments (front ++ .literal ⟨o, text ++ text'⟩ :: back) =
      nodesOfSegments (front ++ .literal ⟨o', text⟩ :: .literal ⟨o'', text'⟩ :: back) := by
  simp only [nodesOfSegments, List.mapM_append, List.mapM_cons]
  rcases front.mapM Item.ofSegment with fault | items
  · rfl
  rcases back.mapM Item.ofSegment with fault | others
  · rfl
  exact nest_cut items others text text'

/-- Literal text that goes on over the seam makes the same tree as two texts. -/
theorem nodesOfSegments_joinPieces (d : Delimiters) (front : List Segment) (offset : Nat)
    (pieces others : List Piece) :
    nodesOfSegments (front ++ layout d offset (joinPieces pieces others)) =
      nodesOfSegments (front ++ layout d offset (pieces ++ others)) := by
  fun_induction joinPieces pieces others generalizing front offset with
  | case1 => rfl
  | case2 text text' back =>
    have hcut := nodesOfSegments_cut front (layout d (offset + bytes (text ++ text')) back) text text'
      offset offset (offset + bytes text)
    simpa [layout, Piece.segment?, Piece.written, Nat.add_assoc] using hcut
  | case3 piece pieces back _ ih =>
    rw [List.cons_append, layout, layout, ← List.append_assoc, ← List.append_assoc]
    exact ih _ _

end Stencil
