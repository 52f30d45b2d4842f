/-
Stencil/Proofs/Injection.lean

What a template can be made to write.  Where the default form escapes and no form of
the template is raw, the output is put together of the template's own text, the
separators that it gives for arrays, and inert text (`WrittenBy`).  So no value of a
context opens or closes anything in the markup, whichever way it comes into the
output.

Every node writes such pieces behind those that stand there, and the guard for
sub-templates throws pieces away, so `Composed` is an invariant of the render.
-/
import Stencil.Proofs.Escaping
import Stencil.Proofs.Keeping

namespace Stencil

/-- What some nodes may write: their text, the separator of one of their arrays, or inert text for the
value of one of their forms. -/
inductive WrittenBy (nodes : List Node) : List Char → Prop
  | text {chars : List Char} : .text chars ∈ marksOf nodes → WrittenBy nodes chars
  | separator {separator : String} {value : Expression} :
      .output (.array separator) value ∈ marksOf nodes → WrittenBy nodes separator.toList
  | value {form : OutputForm} {value : Expression} {piece : List Char} :
      .output form value ∈ marksOf nodes → Inert (form = .url) piece → WrittenBy nodes piece

/-- A text that is put together of what the nodes may write. -/
def Composed (nodes : List Node) (text : String) : Prop :=
  ∃ pieces : List (List Char), text.toList = pieces.flatten ∧ ∀ piece ∈ pieces, WrittenBy nodes piece

/-- The output is composed, and the sub-templates that have been met stand in the nodes. -/
structure ComposedPage (nodes : List Node) (page : Page) : Prop where
  output : Composed nodes page.output
  registry : ∀ name (s : Subtemplate), page.registry.lookup name = some s →
    ∀ mark ∈ marksOf s.body, mark ∈ marksOf nodes

variable {nodes : List Node}

theorem Composed.append {text : String} (h : Composed nodes text) (pieces : List (List Char))
    (hpieces : ∀ piece ∈ pieces, WrittenBy nodes piece) :
    Composed nodes (text ++ String.ofList pieces.flatten) := by
  obtain ⟨before, htext, hbefore⟩ := h
  refine ⟨before ++ pieces, by simp [htext], fun piece hpiece => ?_⟩
  exact (List.mem_append.mp hpiece).elim (hbefore piece) (hpieces piece)

/-- What a form writes for a value is composed. -/
theorem Composed.write {text : String} {form : OutputForm} {value : Expression}
    (h : Composed nodes text) (hform : .output form value ∈ marksOf nodes) (hraw : form ≠ .raw)
    (pageProtocol : String) (v : Value) :
    Composed nodes (text ++ String.ofList (form.write true pageProtocol v)) := by
  obtain ⟨pieces, hwrite, hpieces⟩ := write_pieces form hraw pageProtocol v
  rw [hwrite]
  refine h.append pieces fun piece hpiece => ?_
  rcases hpieces piece hpiece with ⟨separator, rfl, rfl⟩ | hinert
  · exact .separator hform
  · exact .value hform hinert

/-- Nothing that a render does makes an output that is not composed. -/
theorem composedPage_invariant (pageProtocol : String)
    (hraw : ∀ value, .output .raw value ∉ marksOf nodes) :
    PageInvariant true pageProtocol (· ∈ marksOf nodes) (ComposedPage nodes) where
  memory _ _ h := ⟨h.output, h.registry⟩
  text page text htext h := by
    have happend := h.output.append [text.toList] (by simpa using .text htext)
    exact ⟨by simpa using happend, h.registry⟩
  output page form value v hform h := by
    refine ⟨h.output.write hform ?_ pageProtocol v, h.registry⟩
    rintro rfl
    exact hraw value hform
  clear _ h := ⟨⟨[], rfl, nofun⟩, h.registry⟩
  register page name parameters body captured _ hbody h := by
    refine ⟨h.output, fun other s hs => ?_⟩
    -- a sub-template that is defined anew hides the old one
    by_cases hother : other = name
    · subst hother
      obtain rfl : { parameters, body, captured } = s := by simpa using hs
      exact hbody
    · rw [Bindings.lookup_put_of_ne hother] at hs
      exact h.registry other s hs
  bodies _ name s h := h.registry name s

/-- The values of a context cannot put markup into the output of a template that escapes: every output is
put together of the text of the template, the separators of its arrays, and inert text. -/
theorem render_composed (source : String) (c : Configuration) (t : Template)
    (hcompile : Template.compile source c = .ok t) (hescape : c.escapeDefault = true)
    (hraw : ∀ value, .output .raw value ∉ marksOf t.nodes)
    (host : Host) (context : Value) (key output : String)
    (h : t.render host context key = .ok output) :
    ∃ pieces : List (List Char), output.toList = pieces.flatten ∧
      ∀ piece ∈ pieces, WrittenBy t.nodes piece := by
  have htemplate : t.escapeDefault = true := by
    obtain ⟨_, _, _, _, _, hdefault, _⟩ := Template.compile_eq_ok hcompile
    rw [hdefault, hescape]
  have hinv := composedPage_invariant t.pageProtocol hraw
  rw [← htemplate] at hinv
  obtain ⟨page, hpage, rfl⟩ := Template.render_keeps hinv (fun _ hmark => hmark)
    (fun _ => ⟨⟨[], rfl, nofun⟩, nofun⟩) h
  exact hpage.output

/-- A value that tries to end the attribute it is written into. -/
theorem render_composed_attribute :
    let nodes : List Node :=
      [.text "<p title='", .output .default (.identifier ⟨14, 15⟩ "x"), .text "'>"]
    (Template.compile "<p title='<%= x %>'>" {} = .ok ⟨nodes, true, "http:"⟩ ∧
      ∀ value, .output .raw value ∉ marksOf nodes) ∧
    ∃ pieces : List (List Char), "<p title='&#39;&gt;&amp;'>".toList = pieces.flatten ∧
      ∀ piece ∈ pieces, WrittenBy nodes piece := by
  intro nodes
  have hcompile : Template.compile "<p title='<%= x %>'>" {} = .ok ⟨nodes, true, "http:"⟩ := rfl
  have hraw : ∀ value, .output .raw value ∉ marksOf nodes := by
    simp [nodes, marksOf, Node.marks]
  exact ⟨⟨hcompile, hraw⟩, render_composed _ {} ⟨nodes, true, "http:"⟩ hcompile rfl hraw
    (fun _ _ _ => pure (.error "")) (.object (.given 0) [("x", .text "'>&")]) "" _ rfl⟩

end Stencil
