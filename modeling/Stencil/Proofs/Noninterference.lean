/-
Stencil/Proofs/Noninterference.lean

What a render can see of its context.  A whole template looks up the names that
occur in it as identifiers, and no others: two contexts that bind these names to the
same values give the same output or the same fault (`render_eq_of_lookup_eq`).

A name that is only assigned to is none of these.  An assignment may bind it in the
root of one render and change it in that of the other, but nothing ever looks it up.
The order of the names in a context cannot be seen either, since a look-up finds a
name wherever it stands.
-/
import Stencil.Proofs.Agreement

namespace Stencil

/-- The accord of two renders of some nodes that agree on the names in these. -/
def Accord.ofNames (nodes : List Node) : Accord where
  seen name := name ∈ namesIn nodes
  fault _ := True
  mark mark := mark ∈ marksOf nodes
  guard _ := True

theorem Accord.sound_ofNames {nodes : List Node} {mark : Mark}
    (hmark : (Accord.ofNames nodes).mark mark) :
    ∀ e ∈ mark.expressions, e.Sound (Accord.ofNames nodes).seen (Accord.ofNames nodes).fault :=
  fun _ he => ⟨fun _ _ _ => trivial, fun _ _ hpart => ⟨mem_namesIn hmark he hpart, trivial⟩⟩

/-- Nodes that are rendered as a whole come out alike from memories that agree on the names in them. -/
theorem alike_nodes (settings : Settings) (nodes : List Node) :
    Alike (Accord.ofNames nodes).Pages (Accord.ofNames nodes).fault
      (renderNodes settings (runSubtemplate settings maxDepth) nodes)
      (renderNodes settings (runSubtemplate settings maxDepth) nodes) :=
  alike_whole_self (fun _ => Accord.sound_ofNames) (fun _ _ _ _ => trivial)
    (fun _ _ _ _ => trivial) ⟨fun _ hmark => hmark, fun _ _ => trivial⟩

/-- The output depends on nothing but the names that occur as identifiers. -/
theorem render_eq_of_lookup_eq (host : Host) (t : Template) (id id' : Identity)
    {entries entries' : List (String × Value)}
    (h : ∀ name ∈ namesIn t.nodes, entries.lookup name = entries'.lookup name) :
    t.render host (.object id entries) = t.render host (.object id' entries') := by
  have hpage : (Accord.ofNames t.nodes).Pages (startPage (.object id entries) "")
      (startPage (.object id' entries') "") := ⟨⟨rfl, rfl, h⟩, rfl, rfl, nofun⟩
  -- the context of a whole render is no part of its settings
  rw [Template.render_eq_resultOf, Template.render_eq_resultOf]
  exact (alike_nodes (t.settings host .undefined "") t.nodes _ _ hpage).resultOf_eq

/-- **A render sees nothing of its context but the names that its template mentions.**  Contexts that bind
these names to the same values, or do not bind them, give the same output or the same fault.  So
neither the order of the names in a context nor a name that the template does not mention has any
influence on the result. -/
theorem render_noninterference (host : Host) (t : Template) :
    (∀ (id id' : Identity) (entries entries' : List (String × Value)),
      (∀ name ∈ namesIn t.nodes, entries.lookup name = entries'.lookup name) →
      t.render host (.object id entries) = t.render host (.object id' entries')) ∧
    (∀ (id id' : Identity) (entries entries' : List (String × Value)),
      (entries.map Prod.fst).Nodup → entries.Perm entries' →
      t.render host (.object id entries) = t.render host (.object id' entries')) ∧
    (∀ (id id' : Identity) (entries : List (String × Value)) (name : String) (v : Value),
      name ∉ namesIn t.nodes →
      t.render host (.object id (Bindings.put name v entries)) =
        t.render host (.object id' entries)) := by
  refine ⟨fun id id' entries entries' => render_eq_of_lookup_eq host t id id', ?_, ?_⟩
  · intro id id' entries entries' hkeys hperm
    exact render_eq_of_lookup_eq host t id id' fun name _ => Bindings.lookup_eq_of_perm hperm hkeys name
  · intro id id' entries name v hname
    refine render_eq_of_lookup_eq host t id id' fun other hother => ?_
    exact Bindings.lookup_put_of_ne (ne_of_mem_of_not_mem hother hname) v entries

/-- A template that assigns to one name and writes another, for contexts of which one binds the first
and the other binds a third. -/
theorem render_noninterference_assignment :
    let t : Template := ⟨[.evaluate (.assign ⟨2, 7⟩ "b" (.identifier ⟨6, 7⟩ "a")),
      .output .default (.identifier ⟨12, 13⟩ "a")], true, "http:"⟩
    let host : Host := fun _ _ _ => pure (.error "")
    (Template.compile "<%b = a%><%=a%>" {} = .ok t ∧ namesIn t.nodes = ["a", "a"]) ∧
    t.render host (.object (.given 0) [("a", .text "1"), ("b", .text "2")]) =
      t.render host (.object (.given 1) [("c", .null), ("a", .text "1")]) := by
  intro t host
  have hnames : namesIn t.nodes = ["a", "a"] := rfl
  refine ⟨⟨rfl, hnames⟩, (render_noninterference host t).1 _ _ _ _ fun name hname => ?_⟩
  obtain rfl : name = "a" := by simpa [hnames] using hname
  rfl

end Stencil
