/-
Stencil/Proofs/Composition.lean

Compiling sources that are put one behind the other.  The pieces of the two sources
are the pieces of the whole (`Scans.append`), the segments of the second stand further
back and are classified as they are by themselves (`mapM_ofSegment_moved`), and the
trees are put one behind the other (`nest_append`).  The guard for sub-templates
belongs behind the last definition of the whole: if the second source defines
something, the first one loses its guard.

The main result, `compile_append`, says this of templates and of faults.
-/
import Stencil.Proofs.Joining
import Stencil.Proofs.Seam

namespace Stencil

open Text

/-- Behind segments that have a tree, segments that stand further back have the tree or the fault they
have by themselves. -/
theorem nodesOfSegments_append {front back : List Segment} {items : List Item} {nodes : List Node}
    {k : Nat} (hfront : front.mapM Item.ofSegment = .ok items) (hnodes : nest items = .ok nodes) :
    nodesOfSegments (front ++ back.map (·.moved k)) =
      carry (CompileFault.moved k) (fun others =>
        joinNodes (if definedNamesOf others = [] then nodes else unguardedNodes nodes)
          (movedNodes k others)) (nodesOfSegments back) := by
  rw [nodesOfSegments, nodesOfSegments, List.mapM_append, hfront, mapM_ofSegment_moved]
  rcases back.mapM Item.ofSegment with fault | others
  · rfl
  have hrow : nest (items ++ others.map (·.moved k)) =
      carry id (joinNodes (if endsDefinition others then unguardedNodes nodes else nodes))
        (carry (CompileFault.moved k) (movedNodes k) (nest others)) := by
    rw [nest_append hnodes, endsDefinition_moved, nest_moved]
  refine hrow.trans ?_
  change _ = carry _ _ (nest others)
  rcases hnest : nest others with fault | tree
  · rfl
  · -- a row closes a definition exactly if its tree has one
    have hdefines := definedNamesOf_nest hnest
    cases hends : endsDefinition others <;> simp [hends, hdefines]

section Sources

variable {c : Configuration} {d : Delimiters} {front back : String} {t : Template}

/-- The delimiter that opens a directive is the one that is configured. -/
theorem Configuration.left_of_delimiters (h : c.delimiters = .ok d) :
    d.left = c.leftDelimiter.toList := by
  rw [Configuration.delimiters] at h
  split at h
  · cases h
  · cases h
    rfl

theorem Template.compile_of_delimiters (h : c.delimiters = .ok d) (source : String) :
    Template.compile source c =
      carry id (fun nodes => ⟨nodes, c.escapeDefault, c.pageProtocol⟩)
        (segments d source.toList >>= nodesOfSegments) := by
  rw [Template.compile, h]
  change (segments d source.toList >>= _) = _
  rcases segments d source.toList with fault | parts
  · rfl
  · change (nodesOfSegments parts >>= _) = carry id _ (nodesOfSegments parts)
    rcases nodesOfSegments parts with fault | nodes <;> rfl

/-- What comes of the segments of two sources, one behind the other. -/
theorem segments_bind_append {pieces : List Piece} {items : List Item}
    (h : Stages c front d pieces items t)
    (hseam : ¬ Straddles d.left front.toList back.toList) :
    (segments d (front ++ back).toList >>= nodesOfSegments) =
      carry (CompileFault.moved (bytes front.toList)) (fun others =>
        joinNodes (if definedNamesOf others = [] then t.nodes else unguardedNodes t.nodes)
          (movedNodes (bytes front.toList) others))
        (segments d back.toList >>= nodesOfSegments) := by
  obtain ⟨hl, hr⟩ := Configuration.delimiters_eq_ok h.delimiters
  obtain ⟨others, rest, hback, hrest⟩ := exists_scans hl hr back.toList
  have hleft : rest = [] ∨ d.left <+: rest :=
    hrest.imp_right fun ⟨_, hunclosed⟩ => hunclosed.left_prefix
  have hwhole := h.scans.append hl hback hleft hseam
  have hfront : written d pieces = front.toList := by simpa using h.scans.written_append
  rw [String.toList_append]
  rcases hrest with rfl | ⟨complaint, hunclosed⟩
  · rw [segments_of_scans hl hr hwhole, segments_of_scans hl hr hback]
    have hcut := nodesOfSegments_joinPieces d [] 0 pieces others
    have hbehind : layout d (0 + bytes (written d pieces)) others =
        (layout d 0 others).map (·.moved (bytes front.toList)) := by
      rw [hfront, Nat.add_comm, layout_moved]
    rw [List.nil_append, List.nil_append, layout_append, hbehind] at hcut
    exact hcut.trans (nodesOfSegments_append h.classified h.nested)
  · -- a delimiter that nothing closes is met after the pieces of both sources
    rw [segments_of_unclosed hl hr hwhole hunclosed, segments_of_unclosed hl hr hback hunclosed]
    have hbytes : bytes (written d (joinPieces pieces others)) + bytes rest =
        bytes front.toList + (bytes (written d others) + bytes rest) := by
      rw [← bytes_append, hwhole.written_append, ← bytes_append, hback.written_append, bytes_append]
    have hstart : bytes (written d (joinPieces pieces others)) =
        bytes front.toList + bytes (written d others) := by omega
    rw [hstart, bytes_append]
    rfl

/-- **Compiling is compositional.**  Behind a source that compiles, and with no left delimiter straddling
the seam, a source compiles to what it compiles to by itself: its tree stands further back, behind the
tree of the first source, with text going on where they meet, and the first source keeps its guard only
if the second one defines nothing.  If the second source is refused, so is the whole, for the same
reason and at the same place, further back. -/
theorem compile_append (h : Template.compile front c = .ok t)
    (hseam : ¬ Straddles c.leftDelimiter.toList front.toList back.toList) :
    (∀ t', Template.compile back c = .ok t' →
      Template.compile (front ++ back) c = .ok
        { t' with
          nodes := joinNodes (if definedNamesOf t'.nodes = [] then t.nodes else unguardedNodes t.nodes)
            (movedNodes (bytes front.toList) t'.nodes) }) ∧
    (∀ fault, Template.compile back c = .error fault →
      Template.compile (front ++ back) c = .error (fault.moved (bytes front.toList))) := by
  obtain ⟨d, pieces, items, hstages⟩ := Template.stages h
  have hdelimiters := hstages.delimiters
  rw [← Configuration.left_of_delimiters hdelimiters] at hseam
  rw [Template.compile_of_delimiters hdelimiters, Template.compile_of_delimiters hdelimiters,
    segments_bind_append hstages hseam]
  rcases segments d back.toList >>= nodesOfSegments with fault | nodes
  · refine ⟨nofun, ?_⟩
    rintro _ ⟨⟩
    rfl
  · refine ⟨?_, nofun⟩
    rintro _ ⟨⟩
    rfl

/-- Behind a definition and a letter of two bytes: text and another definition, and a directive that
closes nothing. -/
theorem compile_append_definitions :
    let front := "<%define a()%><%/define%>é"
    let t : Template := ⟨[.define "a" [] [], .dispatch, .text "é"], true, "http:"⟩
    Template.compile front {} = .ok t ∧ (∀ back, ¬ Straddles "<%".toList front.toList back) ∧
    Template.compile (front ++ "y<%=u%><%define b()%><%/define%>") {} = .ok
      ⟨[.define "a" [] [], .text "éy", .output .default (.identifier ⟨31, 32⟩ "u"), .define "b" [] [],
        .dispatch], true, "http:"⟩ ∧
    Template.compile (front ++ "x<%/if%>") {} = .error (.malformed (.unexpected .endIf) ⟨30, 33⟩) := by
  intro front t
  have ht : Template.compile "<%define a()%><%/define%>é" {} = .ok t := rfl
  have hseam (back : List Char) : ¬ Straddles "<%".toList front.toList back := by
    intro hstraddles
    obtain ⟨c, hc, hlast⟩ := hstraddles.last_mem
    have hend : "<%define a()%><%/define%>é".toList.getLast? = some 'é' := rfl
    obtain rfl : 'é' = c := Option.some.inj (hend.symm.trans hlast)
    exact absurd hc (by decide)
  refine ⟨ht, hseam, ?_, ?_⟩
  · exact (compile_append ht (hseam _)).1 ⟨[.text "y", .output .default (.identifier ⟨4, 5⟩ "u"),
      .define "b" [] [], .dispatch], true, "http:"⟩ rfl
  · exact (compile_append ht (hseam _)).2 (.malformed (.unexpected .endIf) ⟨3, 6⟩) rfl

end Sources

end Stencil
