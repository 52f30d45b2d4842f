/-
Stencil/Proofs/Agreement.lean

Two renders side by side.  `Alike R P m m'`: from states that `R` relates, the
parts `m` and `m'` come out alike, either both with the same answer or both with
the same fault, of which `P` holds, and again in states that `R` relates.

An evaluation looks up names, assigns to names and counts the arrays and objects that it
makes.  A relation of memories that says enough for these three (`MemoryRelation`) makes
every expression whose names it sees come out alike (`MemoryRelation.evaluate`), with a
fault at one of its parts.  In the same way relations of pages that say enough for all
that is done for a mark (`NodeCongruence`) make nodes come out alike
(`NodeCongruence.renderNodes`).

The memories that are related here agree on a set of names (`Memory.AgreeOn`): their
frames are the same, and their roots bind the names of the set to the same values.

The main result, `alike_renderNodes`, says the same of the nodes of a document.
The two renders may run sub-templates in different ways, as long as these come out
alike.
-/
import Stencil.Proofs.Parts
import Stencil.Render

namespace Stencil

open Rendering

/-! ### Coming out alike -/

section Outcomes

variable {σ α β : Type}

/-- The same answer, or the same fault, in related states. -/
inductive SameOutcome (R : σ → σ → Prop) (P : RenderFault → Prop) :
    EStateM.Result RenderFault σ α → EStateM.Result RenderFault σ α → Prop
  | ok {a : α} {s s' : σ} : R s s' → SameOutcome R P (.ok a s) (.ok a s')
  | error {fault : RenderFault} {s s' : σ} :
      P fault → R s s' → SameOutcome R P (.error fault s) (.error fault s')

/-- From related states the two come out alike. -/
def Alike (R : σ → σ → Prop) (P : RenderFault → Prop) (m m' : EStateM RenderFault σ α) : Prop :=
  ∀ s s', R s s' → SameOutcome R P (m s) (m' s')

variable {R : σ → σ → Prop} {P : RenderFault → Prop}

theorem Alike.pure (a : α) : Alike R P (Pure.pure a) (Pure.pure a) := fun _ _ h => .ok h

theorem Alike.bind {m m' : EStateM RenderFault σ α} {f f' : α → EStateM RenderFault σ β}
    (hm : Alike R P m m') (hf : ∀ a, Alike R P (f a) (f' a)) : Alike R P (m >>= f) (m' >>= f') := by
  intro s s' h
  show SameOutcome R P (EStateM.bind m f s) (EStateM.bind m' f' s')
  have hsame := hm s s' h
  rw [EStateM.bind, EStateM.bind]
  generalize m s = left, m' s' = right at hsame
  -- `f` and `f'` are met with one answer, so it is enough that they are alike at every answer
  cases hsame with
  | ok h => exact hf _ _ _ h
  | error hfault h => exact .error hfault h

/-- What follows on a look at the state may rely on what relates the two states. -/
theorem Alike.get_bind {f f' : σ → EStateM RenderFault σ α}
    (hf : ∀ s s', R s s' → Alike R P (f s) (f' s')) :
    Alike R P (MonadState.get >>= f) (MonadState.get >>= f') :=
  fun s s' h => hf s s' h s s' h

theorem Alike.throw {fault : RenderFault} (h : P fault) :
    Alike R P (MonadExcept.throw fault : EStateM RenderFault σ α) (MonadExcept.throw fault) :=
  fun _ _ hs => .error h hs

theorem Alike.modify {change change' : σ → σ} (h : ∀ s s', R s s' → R (change s) (change' s')) :
    Alike R P (modify change : EStateM RenderFault σ Unit) (modify change') :=
  fun s s' hs => .ok (h s s' hs)

theorem Alike.modifyGet {change change' : σ → α × σ}
    (h : ∀ s s', R s s' → (change s).1 = (change' s').1 ∧ R (change s).2 (change' s').2) :
    Alike R P (modifyGet change : EStateM RenderFault σ α) (modifyGet change') := by
  intro s s' hs
  obtain ⟨hanswer, hstate⟩ := h s s' hs
  show SameOutcome R P (.ok (change s).1 (change s).2) (.ok (change' s').1 (change' s').2)
  rw [hanswer]
  exact .ok hstate

end Outcomes

/-! ### Memories that agree -/

/-- The two memories differ at most in what their roots bind names to that are not `seen`. -/
structure Memory.AgreeOn (seen : String → Prop) (m m' : Memory) : Prop where
  frames : m.scope.frames = m'.scope.frames
  made : m.made = m'.made
  root : ∀ name, seen name → m.scope.root.lookup name = m'.scope.root.lookup name

namespace Memory.AgreeOn

variable {seen : String → Prop} {m m' : Memory}

theorem refl (m : Memory) : m.AgreeOn seen m := ⟨rfl, rfl, fun _ _ => rfl⟩

theorem resolve (h : m.AgreeOn seen m') {name : String} (hname : seen name) :
    m.scope.resolve? name = m'.scope.resolve? name := by
  simp only [Scope.resolve?, Scope.lookup?, Scope.bindings, List.lookup_append, h.frames,
    h.root name hname]

theorem withFrames (h : m.AgreeOn seen m') (frames : List Frame) :
    AgreeOn seen { m with scope.frames := frames } { m' with scope.frames := frames } :=
  ⟨rfl, h.made, h.root⟩

theorem push (h : m.AgreeOn seen m') (frame : Frame) :
    AgreeOn seen { m with scope := m.scope.push frame } { m' with scope := m'.scope.push frame } := by
  refine ⟨?_, h.made, h.root⟩
  simp only [Scope.push, h.frames]

theorem pop (h : m.AgreeOn seen m') :
    AgreeOn seen { m with scope := m.scope.pop } { m' with scope := m'.scope.pop } := by
  refine ⟨?_, h.made, h.root⟩
  simp only [Scope.pop, h.frames]

/-- A name that is bound in both roots is bound to the same there. -/
theorem put (h : m.AgreeOn seen m') (name : String) (v : Value) :
    AgreeOn seen { m with scope.root := m.scope.root.put name v }
      { m' with scope.root := m'.scope.root.put name v } := by
  refine ⟨h.frames, h.made, fun other hother => ?_⟩
  by_cases hname : other = name
  · simp only [hname, Bindings.lookup_put_self]
  · simp only [Bindings.lookup_put_of_ne hname, h.root other hother]

theorem declare (h : m.AgreeOn seen m') (name : String) (v : Value) :
    AgreeOn seen { m with scope := m.scope.declare name v }
      { m' with scope := m'.scope.declare name v } := by
  obtain ⟨⟨root, frames⟩, made⟩ := m
  obtain ⟨⟨root', frames'⟩, made'⟩ := m'
  obtain rfl : frames = frames' := h.frames
  cases frames with
  | nil => exact h.put name v
  | cons frame frames => exact ⟨rfl, h.made, h.root⟩

theorem assign (h : m.AgreeOn seen m') (name : String) (v : Value) :
    AgreeOn seen { m with scope := m.scope.assign name v }
      { m' with scope := m'.scope.assign name v } := by
  obtain ⟨⟨root, frames⟩, made⟩ := m
  obtain ⟨⟨root', frames'⟩, made'⟩ := m'
  obtain rfl : frames = frames' := h.frames
  simp only [Scope.assign]
  -- the frames are the same, so the name is found in one of them on both sides or on none
  cases rebindIn? name v frames with
  | none => exact h.put name v
  | some changed => exact ⟨rfl, h.made, h.root⟩

theorem made_eq (h : m.AgreeOn seen m') (n : Nat) :
    AgreeOn seen { m with made := n } { m' with made := n } := ⟨h.frames, rfl, h.root⟩

end Memory.AgreeOn

/-! ### Expressions -/

/-- What an expression may do where the names `seen` are related and `P` holds of its faults: look up
names that are seen, and stop with a fault at its own place. -/
structure Expression.Sound (seen : String → Prop) (P : RenderFault → Prop) (e : Expression) : Prop where
  mismatch : ∀ part ∈ e.parts, ∀ cause, P (.mismatch cause part.span)
  unbound : ∀ span name, .identifier span name ∈ e.parts → seen name ∧ P (.unbound name span)

/-- An expression that is sound and assigns to `assignable` names only. -/
structure Expression.SoundFor (seen assignable : String → Prop) (P : RenderFault → Prop)
    (e : Expression) : Prop extends e.Sound seen P where
  assigns : ∀ span name value, .assign span name value ∈ e.parts → assignable name

/-- What evaluations rely on where they come out alike: names that are seen stand for the same, as many
values have been made, and assignments keep up the relation. -/
structure MemoryRelation (seen assignable : String → Prop) (R : Memory → Memory → Prop) : Prop where
  resolve : ∀ {m m' name}, R m m' → seen name → m.scope.resolve? name = m'.scope.resolve? name
  made : ∀ {m m'}, R m m' → m.made = m'.made
  made_eq : ∀ {m m'}, R m m' → ∀ n, R { m with made := n } { m' with made := n }
  assign : ∀ {m m' name}, R m m' → assignable name → ∀ v,
    R { m with scope := m.scope.assign name v } { m' with scope := m'.scope.assign name v }

section Expressions

variable {seen assignable : String → Prop} {P : RenderFault → Prop} {services : Services}
  {R : Memory → Memory → Prop}

theorem Expression.SoundFor.of_subset {e part : Expression} (h : e.SoundFor seen assignable P)
    (hpart : part.parts ⊆ e.parts) : part.SoundFor seen assignable P where
  mismatch p hp := h.mismatch p (hpart hp)
  unbound span name hp := h.unbound span name (hpart hp)
  assigns span name value hp := h.assigns span name value (hpart hp)

theorem Expression.Sound.self {e : Expression} (h : e.Sound seen P) (cause : Mismatch) :
    P (.mismatch cause e.span) := h.mismatch e e.self_mem_parts cause

namespace MemoryRelation

theorem newIdentity (hR : MemoryRelation seen assignable R) :
    Alike R P Stencil.newIdentity Stencil.newIdentity :=
  .modifyGet fun m m' h => ⟨by rw [hR.made h], by simpa only [hR.made h] using hR.made_eq h _⟩

theorem callFunction (hR : MemoryRelation seen assignable R) {f : Function} {arguments : List Value}
    {span : Span} (h : ∀ cause, P (.mismatch cause span)) :
    Alike R P (Stencil.callFunction services f arguments span)
      (Stencil.callFunction services f arguments span) := by
  cases f with
  | builtin b => exact .pure _
  | host name =>
    -- the host sees the arguments and how many values were made, and nothing else of the memory
    refine .bind (.modifyGet fun m m' hm => ?_) fun answer => ?_
    · rw [hR.made hm]
      exact ⟨rfl, hR.made_eq hm _⟩
    · cases answer with
      | ok v => exact .pure _
      | error message => exact .throw (h _)

theorem guarded (hR : MemoryRelation seen assignable R) {e : Expression}
    {evaluation : Evaluation Value} (he : e.Sound seen P) (h : Alike R P evaluation evaluation) :
    Alike R P (e.guarded evaluation) (e.guarded evaluation) := by
  cases e with
  | identifier span name =>
    refine .get_bind fun m m' hm => ?_
    rw [hR.resolve hm (he.unbound span name (by simp [Expression.parts])).1]
    exact .pure _
  | _ => exact h

end MemoryRelation

theorem alike_readMember {v : Value} {key : String} {span : Span}
    (h : ∀ cause, P (.mismatch cause span)) :
    Alike R P (readMember v key span) (readMember v key span) := by
  rw [readMember]
  split
  · exact .throw (h _)
  · exact .pure _

namespace MemoryRelation

mutual

theorem evaluate (hR : MemoryRelation seen assignable R) :
    (e : Expression) → e.SoundFor seen assignable P →
    Alike R P (Stencil.evaluate services e) (Stencil.evaluate services e)
  -- the cases are those of the interpreter: what is evaluated first comes out alike, and what follows
  -- is alike at every answer; parts of a sound expression are sound
  | .literal span value, _ => by
    rw [Stencil.evaluate]
    exact .pure _
  | .identifier span name, h => by
    -- a name is the only thing that is looked up, and both memories know the same of it
    obtain ⟨hseen, hfault⟩ := h.unbound span name (by simp [Expression.parts])
    rw [Stencil.evaluate]
    refine .get_bind fun m m' hm => ?_
    rw [hR.resolve hm hseen]
    split
    · exact .pure _
    · exact .throw hfault
  | .array span items, h => by
    rw [Stencil.evaluate]
    -- the array is told apart by how many were made before, which is the same on both sides
    refine .bind (hR.evaluateAll items fun e he => h.of_subset fun part hpart => ?_) fun values =>
      .bind hR.newIdentity fun id => .pure _
    exact List.mem_cons_of_mem _ (mem_partsOfAll.mpr ⟨e, he, hpart⟩)
  | .object span entries, h => by
    rw [Stencil.evaluate]
    refine .bind (hR.evaluateEntries entries fun entry he => h.of_subset fun part hpart => ?_)
      fun values => .bind hR.newIdentity fun id => .pure _
    exact List.mem_cons_of_mem _ (mem_partsOfEntries.mpr ⟨entry, he, hpart⟩)
  | .member span object property, h => by
    rw [Stencil.evaluate]
    exact .bind (hR.evaluate object (h.of_subset (by simp [Expression.parts]))) fun v =>
      alike_readMember h.self
  | .index span object index, h => by
    rw [Stencil.evaluate]
    exact .bind (hR.evaluate object (h.of_subset (by simp [Expression.parts]))) fun v =>
      .bind (hR.evaluate index (h.of_subset (by simp [Expression.parts]))) fun key =>
        alike_readMember h.self
  | .call span callee arguments, h => by
    have harguments := hR.evaluateAll arguments fun e he => h.of_subset fun part hpart =>
      List.mem_cons_of_mem _ (List.mem_append_right _ (mem_partsOfAll.mpr ⟨e, he, hpart⟩))
    have hcallee : callee.SoundFor seen assignable P := h.of_subset (by simp [Expression.parts])
    -- the interpreter has a form of its own for calls of members, where the function is looked up in
    -- the value of the object
    by_cases hmember : ∃ place object property, callee = .member place object property
    · obtain ⟨place, object, property, rfl⟩ := hmember
      rw [Stencil.evaluate]
      refine .bind (hR.evaluate object (hcallee.of_subset (by simp [Expression.parts])))
        fun receiver => .bind (alike_readMember hcallee.self) fun v => ?_
      split
      · exact .bind harguments fun values => hR.callFunction h.self
      · refine .bind harguments fun values => .bind hR.newIdentity fun id => ?_
        split
        · exact .pure _
        · exact .throw (h.self _)
      · exact .throw (h.self _)
    · rw [Stencil.evaluate]
      · refine .bind (hR.evaluate callee hcallee) fun v => ?_
        split
        · exact .bind harguments fun values => hR.callFunction h.self
        · exact .throw (h.self _)
      · exact fun place object property hcall => hmember ⟨place, object, property, hcall⟩
  | .unary span operator operand, h => by
    have hoperand : operand.SoundFor seen assignable P := h.of_subset (by simp [Expression.parts])
    -- `typeof` is the only operator that a name may stand behind which nothing binds
    by_cases htype : operator = .typeOf
    · subst htype
      rw [Stencil.evaluate]
      exact .bind (hR.guarded hoperand.toSound (hR.evaluate operand hoperand)) fun v => .pure _
    · rw [Stencil.evaluate]
      · exact .bind (hR.evaluate operand hoperand) fun v => .pure _
      · exact htype
  | .binary span operator left right, h => by
    rw [Stencil.evaluate]
    -- the left value decides on both sides whether the right one is evaluated
    refine .bind (hR.evaluate left (h.of_subset (by simp [Expression.parts]))) fun a => ?_
    split
    · exact .pure _
    · exact .bind (hR.evaluate right (h.of_subset (by simp [Expression.parts]))) fun b => .pure _
  | .conditional span condition consequent alternative, h => by
    rw [Stencil.evaluate]
    refine .bind (hR.evaluate condition (h.of_subset (by simp [Expression.parts]))) fun v => ?_
    split
    · exact hR.evaluate consequent (h.of_subset fun part hp => by simp [Expression.parts, hp])
    · exact hR.evaluate alternative (h.of_subset fun part hp => by simp [Expression.parts, hp])
  | .assign span name value, h => by
    -- an assignment keeps up the relation for the names that it may be made to
    have hname : assignable name := h.assigns span name value (by simp [Expression.parts])
    rw [Stencil.evaluate]
    exact .bind (hR.evaluate value (h.of_subset (by simp [Expression.parts]))) fun v =>
      .bind (.modify fun m m' hm => hR.assign hm hname v) fun _ => .pure _

theorem evaluateAll (hR : MemoryRelation seen assignable R) :
    (es : List Expression) → (∀ e ∈ es, e.SoundFor seen assignable P) →
    Alike R P (Stencil.evaluateAll services es) (Stencil.evaluateAll services es)
  | [], _ => by
    rw [Stencil.evaluateAll]
    exact .pure _
  | e :: es, h => by
    obtain ⟨he, hes⟩ := List.forall_mem_cons.mp h
    rw [Stencil.evaluateAll]
    exact .bind (hR.evaluate e he) fun v => .bind (hR.evaluateAll es hes) fun vs => .pure _

theorem evaluateEntries (hR : MemoryRelation seen assignable R) :
    (entries : List (String × Expression)) →
    (∀ entry ∈ entries, entry.2.SoundFor seen assignable P) →
    Alike R P (Stencil.evaluateEntries services entries) (Stencil.evaluateEntries services entries)
  | [], _ => by
    rw [Stencil.evaluateEntries]
    exact .pure _
  | (key, e) :: entries, h => by
    obtain ⟨he, hentries⟩ := List.forall_mem_cons.mp h
    rw [Stencil.evaluateEntries]
    exact .bind (hR.evaluate e he) fun v =>
      .bind (hR.evaluateEntries entries hentries) fun vs => .pure _

end

theorem evaluateGuarded (hR : MemoryRelation seen assignable R) {e : Expression}
    (he : e.SoundFor seen assignable P) :
    Alike R P (Stencil.evaluateGuarded services e) (Stencil.evaluateGuarded services e) :=
  hR.guarded he.toSound (hR.evaluate e he)

end MemoryRelation

/-- Memories that agree are related so that any name may be assigned to. -/
theorem Memory.AgreeOn.relation (seen : String → Prop) :
    MemoryRelation seen (fun _ => True) (Memory.AgreeOn seen) where
  resolve h := h.resolve
  made h := h.made
  made_eq h := h.made_eq
  assign h _ v := h.assign _ v

theorem Expression.Sound.soundFor {e : Expression} (h : e.Sound seen P) :
    e.SoundFor seen (fun _ => True) P := ⟨h, fun _ _ _ _ => trivial⟩

theorem alike_evaluate (e : Expression) (he : e.Sound seen P) :
    Alike (Memory.AgreeOn seen) P (evaluate services e) (evaluate services e) :=
  (Memory.AgreeOn.relation seen).evaluate e he.soundFor

theorem alike_evaluateAll (es : List Expression) (hes : ∀ e ∈ es, e.Sound seen P) :
    Alike (Memory.AgreeOn seen) P (evaluateAll services es) (evaluateAll services es) :=
  (Memory.AgreeOn.relation seen).evaluateAll es fun e he => (hes e he).soundFor

theorem alike_evaluateGuarded {e : Expression} (he : e.Sound seen P) :
    Alike (Memory.AgreeOn seen) P (evaluateGuarded services e) (evaluateGuarded services e) :=
  (Memory.AgreeOn.relation seen).evaluateGuarded he.soundFor

end Expressions

/-! ### Pages that agree -/

/-- The two pages differ at most in what their memories may differ in, and the bodies of the
sub-templates that have been met are all `Known`. -/
structure Page.AgreeOn (seen : String → Prop) (Known : List Node → Prop) (p p' : Page) : Prop where
  memory : p.memory.AgreeOn seen p'.memory
  registry : p.registry = p'.registry
  output : p.output = p'.output
  known : ∀ name (s : Subtemplate), p.registry.lookup name = some s → Known s.body

section Pages

variable {seen : String → Prop} {Known : List Node → Prop} {P : RenderFault → Prop} {α β : Type}

theorem Page.AgreeOn.withMemory {p p' : Page} {m m' : Memory} (h : p.AgreeOn seen Known p')
    (hm : m.AgreeOn seen m') :
    AgreeOn seen Known { p with memory := m } { p' with memory := m' } :=
  ⟨hm, h.registry, h.output, h.known⟩

/-- An evaluation changes the memory of a page and nothing else. -/
theorem Alike.evaluating {R : Memory → Memory → Prop} {S : Page → Page → Prop}
    {evaluation evaluation' : Evaluation α} (hmemory : ∀ {p p'}, S p p' → R p.memory p'.memory)
    (hwith : ∀ {p p' m m'}, S p p' → R m m' → S { p with memory := m } { p' with memory := m' })
    (h : Alike R P evaluation evaluation') :
    Alike S P (Rendering.evaluating evaluation) (Rendering.evaluating evaluation') := by
  intro p p' hp
  have hsame := h p.memory p'.memory (hmemory hp)
  rw [Rendering.evaluating, Rendering.evaluating]
  generalize evaluation p.memory = left, evaluation' p'.memory = right at hsame
  cases hsame with
  | ok hm => exact .ok (hwith hp hm)
  | error hfault hm => exact .error hfault (hwith hp hm)

/-- A frame that is laid over the others may change how pages are related, until it is taken away. -/
theorem Alike.inFrame {S T : Page → Page → Prop} {frame : Frame} {body body' : Rendering α}
    (hpush : ∀ {p p' : Page}, S p p' → T { p with memory.scope := p.memory.scope.push frame }
      { p' with memory.scope := p'.memory.scope.push frame })
    (hpop : ∀ {p p' : Page}, T p p' → S { p with memory.scope := p.memory.scope.pop }
      { p' with memory.scope := p'.memory.scope.pop })
    (h : Alike T P body body') :
    Alike S P (Rendering.inFrame frame body) (Rendering.inFrame frame body') := by
  intro p p' hp
  have hsame := h _ _ (hpush hp)
  rw [Rendering.inFrame, Rendering.inFrame]
  generalize body _ = left, body' _ = right at hsame
  -- the frame is taken away also where the body ends in a fault
  cases hsame with
  | ok hq => exact .ok (hpop hq)
  | error hfault hq => exact .error hfault (hpop hq)

theorem alike_evaluating {evaluation evaluation' : Evaluation α}
    (h : Alike (Memory.AgreeOn seen) P evaluation evaluation') :
    Alike (Page.AgreeOn seen Known) P (Rendering.evaluating evaluation)
      (Rendering.evaluating evaluation') :=
  .evaluating (fun hp => hp.memory) (fun hp hm => hp.withMemory hm) h

theorem alike_write (text : String) :
    Alike (Page.AgreeOn seen Known) P (Rendering.write text) (Rendering.write text) :=
  .modify fun _ _ hp => ⟨hp.memory, hp.registry, by simp only [hp.output], hp.known⟩

theorem alike_clear : Alike (Page.AgreeOn seen Known) P Rendering.clear Rendering.clear :=
  .modify fun _ _ hp => ⟨hp.memory, hp.registry, rfl, hp.known⟩

theorem alike_declare (name : String) (v : Value) :
    Alike (Page.AgreeOn seen Known) P (Rendering.changeScope (·.declare name v))
      (Rendering.changeScope (·.declare name v)) :=
  .modify fun _ _ hp => hp.withMemory (hp.memory.declare name v)

theorem alike_register (name : String) (parameters : List String) {body : List Node}
    (hbody : Known body) :
    Alike (Page.AgreeOn seen Known) P (Rendering.register name parameters body)
      (Rendering.register name parameters body) := by
  refine .modify fun p p' hp => ⟨hp.memory, ?_, hp.output, fun other s hs => ?_⟩
  · simp only [hp.registry, hp.memory.frames]
  -- a sub-template that is defined anew hides the old one
  · by_cases hother : other = name
    · subst hother
      obtain rfl := by simpa using hs
      exact hbody
    · rw [Bindings.lookup_put_of_ne hother] at hs
      exact hp.known other s hs

theorem alike_inFrame (frame : Frame) {body body' : Rendering α}
    (h : Alike (Page.AgreeOn seen Known) P body body') :
    Alike (Page.AgreeOn seen Known) P (Rendering.inFrame frame body)
      (Rendering.inFrame frame body') :=
  .inFrame (fun hp => hp.withMemory (hp.memory.push frame))
    (fun hq => hq.withMemory hq.memory.pop) h

theorem alike_underFrames (frames : List Frame) {body body' : Rendering α}
    (h : Alike (Page.AgreeOn seen Known) P body body') :
    Alike (Page.AgreeOn seen Known) P (Rendering.underFrames frames body)
      (Rendering.underFrames frames body') := by
  intro p p' hp
  have hsame := h _ _ (hp.withMemory (hp.memory.withFrames frames))
  -- the frames of the caller come back, and they were the same before
  rw [Rendering.underFrames, Rendering.underFrames, hp.memory.frames]
  generalize body _ = left, body' _ = right at hsame
  cases hsame with
  | ok hq => exact .ok (hq.withMemory (hq.memory.withFrames _))
  | error hfault hq => exact .error hfault (hq.withMemory (hq.memory.withFrames _))

theorem alike_visitEntries {S : Page → Page → Prop} {f f' : Value → Value → Rendering (Option β)}
    (hf : ∀ key value, Alike S P (f key value) (f' key value)) (entries : List (Value × Value)) :
    Alike S P (visitEntries f entries) (visitEntries f' entries) := by
  induction entries with
  | nil => exact .pure none
  | cons entry entries ih =>
    refine .bind (hf entry.1 entry.2) fun answer => ?_
    cases answer with
    | none => exact ih
    | some b => exact .pure (some b)

end Pages

/-! ### Nodes -/

section Nodes

variable {settings : Settings} {run run' : Runner} {inner : Bool}

/-- What two renders of the same nodes rely on: all that is done for a mark or a guard which the nodes
may have comes out alike.  Pages are related by `S n` while `n` frames more lie over the others than
where the nodes began; `inner` if the nodes are those of a sub-template. -/
structure NodeCongruence (settings : Settings) (inner : Bool) (run run' : Runner)
    (may : Mark → Prop) (guard : Bool → Prop) (P : RenderFault → Prop)
    (S : Nat → Page → Page → Prop) : Prop where
  registry : ∀ {n p p'}, S n p p' → p.registry = p'.registry
  write : ∀ n text, Alike (S n) P (Rendering.write text) (Rendering.write text)
  evaluate : ∀ n mark, may mark → ∀ e ∈ mark.expressions,
    Alike (S n) P (evaluating (evaluate settings.toServices e))
      (evaluating (evaluate settings.toServices e))
  evaluateGuarded : ∀ n mark, may mark → ∀ e ∈ mark.expressions,
    Alike (S n) P (evaluating (evaluateGuarded settings.toServices e))
      (evaluating (evaluateGuarded settings.toServices e))
  evaluateAll : ∀ n mark, may mark →
    Alike (S n) P (evaluating (evaluateAll settings.toServices mark.expressions))
      (evaluating (evaluateAll settings.toServices mark.expressions))
  declare : ∀ n name value, may (.declare name value) → ∀ v,
    Alike (S n) P (changeScope (·.declare name v)) (changeScope (·.declare name v))
  define : ∀ n name parameters body, may (.define name parameters) →
    (∀ mark ∈ marksOf body, may mark) → (∀ place ∈ guardsIn true body, guard place) →
    Alike (S n) P (register name parameters body) (register name parameters body)
  inFrame : ∀ n frame {body body' : Rendering Flow}, Alike (S (n + 1)) P body body' →
    Alike (S n) P (Rendering.inFrame frame body) (Rendering.inFrame frame body')
  runs : ∀ n name expressions span, may (.run name expressions span) → ∀ arguments,
    Alike (S n) P (run name arguments span) (run' name arguments span)
  dispatch : guard inner → ∀ n name context, settings.asked = some (name, context) →
    Alike (S n) P (do clear; run name [context] (.at 0)) (do clear; run' name [context] (.at 0))

namespace NodeCongruence

variable {may : Mark → Prop} {guard : Bool → Prop} {P : RenderFault → Prop}
  {S : Nat → Page → Page → Prop}

mutual

theorem renderNode (h : NodeCongruence settings inner run run' may guard P S) (n : Nat) :
    (node : Node) → (∀ mark ∈ node.marks, may mark) → (∀ place ∈ node.guards inner, guard place) →
    Alike (S n) P (Stencil.renderNode settings run node) (Stencil.renderNode settings run' node)
  -- for each node the fields of `h` say that what it does comes out alike; its marks and guards are
  -- among those that the nodes may have, and so are those of the nodes in it
  | .text text, _, _ => by
    rw [Stencil.renderNode, Stencil.renderNode]
    exact .bind (h.write n text) fun _ => .pure _
  | .output form value, hm, _ => by
    have hvalue := h.evaluateGuarded n (.output form value) (hm _ (by simp [Node.marks])) value
      List.mem_cons_self
    rw [Stencil.renderNode, Stencil.renderNode]
    -- what is written depends on the value and the settings only
    refine .bind hvalue fun v => ?_
    dsimp only
    split
    · exact .bind (h.write n _) fun _ => .pure _
    · exact .pure _
  | .declare name none, hm, _ => by
    have hdeclare := h.declare n name none (hm _ (by simp [Node.marks]))
    rw [Stencil.renderNode, Stencil.renderNode]
    exact .bind (.pure _) fun v => .bind (hdeclare v) fun _ => .pure _
  | .declare name (some e), hm, _ => by
    have hmark := hm (.declare name (some e)) (by simp [Node.marks])
    rw [Stencil.renderNode, Stencil.renderNode]
    exact .bind (h.evaluate n _ hmark e List.mem_cons_self) fun v =>
      .bind (h.declare n name _ hmark v) fun _ => .pure _
  | .evaluate e, hm, _ => by
    have he := h.evaluate n (.evaluate e) (hm _ (by simp [Node.marks])) e List.mem_cons_self
    rw [Stencil.renderNode, Stencil.renderNode]
    exact .bind he fun _ => .pure _
  | .choose branches otherwise, hm, hg => by
    rw [Stencil.renderNode, Stencil.renderNode]
    rw [Node.marks] at hm
    rw [Node.guards] at hg
    refine h.renderBranches n .ifThen (fun _ => rfl) branches (fun mark hmark => hm mark ?_)
      (fun place hplace => hg place (List.mem_append_left _ hplace))
      (h.renderNodes n otherwise (fun mark hmark => hm mark ?_)
        fun place hplace => hg place (List.mem_append_right _ hplace))
    · exact List.mem_append_left _ hmark
    · -- the last branch is listed where it holds something
      cases otherwise with
      | nil => cases hmark
      | cons node nodes => simp [hmark]
  | .forEach item collection body otherwise, hm, hg => by
    rw [Stencil.renderNode, Stencil.renderNode]
    rw [Node.marks] at hm
    rw [Node.guards] at hg
    have hcollection := h.evaluateGuarded n (.forEach item collection) (hm _ List.mem_cons_self)
      collection List.mem_cons_self
    -- the bodies of a loop run one frame deeper
    have hbody := h.renderNodes (n + 1) body (fun mark hmark => hm mark (by simp [hmark]))
      fun place hplace => hg place (List.mem_append_left _ hplace)
    have hotherwise := h.renderNodes (n + 1) otherwise (fun mark hmark => hm mark (by
      cases otherwise with
      | nil => cases hmark
      | cons node nodes => simp [hmark])) fun place hplace => hg place (List.mem_append_right _ hplace)
    refine .bind hcollection fun v => ?_
    split
    · exact .bind (h.inFrame n [] hotherwise) fun _ => .pure _
    · -- both sides visit the same entries, and each body ends in the same way, so both go on or stop
      refine .bind (alike_visitEntries (fun key value => ?_) _) fun _ => .pure _
      refine .bind (h.inFrame n _ hbody) fun flow => ?_
      split <;> exact .pure _
  | .leave, _, _ => by
    rw [Stencil.renderNode, Stencil.renderNode]
    exact .pure _
  | .define name parameters body, hm, hg => by
    rw [Stencil.renderNode, Stencil.renderNode]
    rw [Node.marks] at hm
    rw [Node.guards] at hg
    exact .bind (h.define n name parameters body (hm _ List.mem_cons_self)
      (fun mark hmark => hm mark (by simp [hmark])) hg) fun _ => .pure _
  | .run name arguments span, hm, _ => by
    have hmark := hm (.run name arguments span) (by simp [Node.marks])
    rw [Stencil.renderNode, Stencil.renderNode]
    -- both registries know the same of the name, so both runs are made or none
    refine .get_bind fun p p' hp => ?_
    rw [h.registry hp]
    dsimp only
    split
    · exact .bind (h.evaluateAll n _ hmark) fun values =>
        .bind (h.runs n name arguments span hmark values) fun _ => .pure _
    · exact .pure _
  | .dispatch, _, hg => by
    rw [Stencil.renderNode, Stencil.renderNode]
    -- a guard runs the body that was asked for, on a page whose output is empty
    have hguard : guard inner := hg inner (by simp [Node.guards])
    split
    · next name context hasked =>
      have hdispatch := h.dispatch hguard n name context hasked
      simpa only [bind_assoc] using Alike.bind hdispatch fun _ => .pure Flow.finish
    · exact .pure _

theorem renderNodes (h : NodeCongruence settings inner run run' may guard P S) (n : Nat) :
    (nodes : List Node) → (∀ mark ∈ marksOf nodes, may mark) →
    (∀ place ∈ guardsIn inner nodes, guard place) →
    Alike (S n) P (Stencil.renderNodes settings run nodes) (Stencil.renderNodes settings run' nodes)
  | [], _, _ => by
    rw [Stencil.renderNodes, Stencil.renderNodes]
    exact .pure _
  | node :: nodes, hm, hg => by
    rw [Stencil.renderNodes, Stencil.renderNodes]
    rw [marksOf] at hm
    rw [guardsIn] at hg
    refine .bind (h.renderNode n node (fun mark hmark => hm mark (List.mem_append_left _ hmark))
      fun place hplace => hg place (List.mem_append_left _ hplace)) fun flow => ?_
    -- how the first node ended decides on both sides whether the others are rendered
    split
    · exact h.renderNodes n nodes (fun mark hmark => hm mark (List.mem_append_right _ hmark))
        fun place hplace => hg place (List.mem_append_right _ hplace)
    · exact .pure _

theorem renderBranches (h : NodeCongruence settings inner run run' may guard P S) (n : Nat)
    (opening : Expression → Mark)
    (hopening : ∀ condition, (opening condition).expressions = [condition]) :
    (branches : List Branch) → {otherwise otherwise' : Rendering Flow} →
    (∀ mark ∈ marksOfBranches opening branches, may mark) →
    (∀ place ∈ guardsInBranches inner branches, guard place) →
    Alike (S n) P otherwise otherwise' →
    Alike (S n) P (Stencil.renderBranches settings run branches otherwise)
      (Stencil.renderBranches settings run' branches otherwise')
  | [], otherwise, otherwise', _, _, hotherwise => by
    rw [Stencil.renderBranches, Stencil.renderBranches]
    exact hotherwise
  | .mk condition body :: branches, otherwise, otherwise', hm, hg, hotherwise => by
    rw [Stencil.renderBranches, Stencil.renderBranches]
    rw [marksOfBranches] at hm
    rw [guardsInBranches] at hg
    have hcondition := h.evaluate n (opening condition) (hm _ List.mem_cons_self) condition
      (by simp [hopening])
    -- the condition has the same value on both sides, so both take this branch or both go on
    refine .bind hcondition fun v => ?_
    split
    · exact h.renderNodes n body (fun mark hmark => hm mark (by simp [hmark]))
        fun place hplace => hg place (List.mem_append_left _ hplace)
    · exact h.renderBranches n .elseIf (fun _ => rfl) branches
        (fun mark hmark => hm mark (by simp [hmark]))
        (fun place hplace => hg place (List.mem_append_right _ hplace)) hotherwise

end

end NodeCongruence

end Nodes

/-! ### Accords -/

/-- What two renders have in common. -/
structure Accord where
  /-- The names that both roots bind to the same values. -/
  seen : String → Prop
  /-- The faults that may come up. -/
  fault : RenderFault → Prop
  /-- The marks that the nodes may have. -/
  mark : Mark → Prop
  /-- Whether a guard may stand outside of all definitions (`false`), or inside of one (`true`). -/
  guard : Bool → Prop

namespace Accord

/-- The nodes have marks and guards that they may have; `inner` if they stand in a definition. -/
structure Admits (a : Accord) (inner : Bool) (nodes : List Node) : Prop where
  marks : ∀ mark ∈ marksOf nodes, a.mark mark
  guards : ∀ place ∈ guardsIn inner nodes, a.guard place

/-- The pages agree, and the sub-templates that have been met have bodies that they may have. -/
abbrev Pages (a : Accord) : Page → Page → Prop := Page.AgreeOn a.seen (a.Admits true)

/-- What two renders of nodes rely on: the expressions of marks are sound, and the runs that a mark or a
guard asks for come out alike; `inner` if the nodes are those of a sub-template. -/
structure Runs (a : Accord) (settings : Settings) (inner : Bool) (run run' : Runner) : Prop where
  sound : ∀ mark, a.mark mark → ∀ e ∈ mark.expressions, e.Sound a.seen a.fault
  runs : ∀ name expressions span, a.mark (.run name expressions span) → ∀ arguments,
    Alike a.Pages a.fault (run name arguments span) (run' name arguments span)
  guards : a.guard inner → ∀ name context, settings.asked = some (name, context) →
    Alike a.Pages a.fault (run name [context] (.at 0)) (run' name [context] (.at 0))

end Accord

section Accords

variable {a : Accord} {settings : Settings} {inner : Bool} {run run' : Runner}

/-- Pages that agree do so whatever lies over their frames. -/
theorem Accord.Runs.congruence (hrun : a.Runs settings inner run run') :
    NodeCongruence settings inner run run' a.mark a.guard a.fault fun _ => a.Pages where
  registry hp := hp.registry
  write _ := alike_write
  evaluate _ mark hmark e he := alike_evaluating (alike_evaluate e (hrun.sound mark hmark e he))
  evaluateGuarded _ mark hmark e he :=
    alike_evaluating (alike_evaluateGuarded (hrun.sound mark hmark e he))
  evaluateAll _ mark hmark := alike_evaluating (alike_evaluateAll _ (hrun.sound mark hmark))
  declare _ name _ _ v := alike_declare name v
  define _ name parameters _ _ hm hg := alike_register name parameters ⟨hm, hg⟩
  inFrame _ frame _ _ h := alike_inFrame frame h
  runs _ := hrun.runs
  dispatch hinner _ name context hasked :=
    .bind alike_clear fun _ => hrun.guards hinner name context hasked

theorem alike_renderNode (hrun : a.Runs settings inner run run') (node : Node)
    (hm : ∀ mark ∈ node.marks, a.mark mark) (hg : ∀ place ∈ node.guards inner, a.guard place) :
    Alike a.Pages a.fault (renderNode settings run node) (renderNode settings run' node) :=
  hrun.congruence.renderNode 0 node hm hg

theorem alike_renderNodes (hrun : a.Runs settings inner run run') (nodes : List Node)
    (hm : ∀ mark ∈ marksOf nodes, a.mark mark) (hg : ∀ place ∈ guardsIn inner nodes, a.guard place) :
    Alike a.Pages a.fault (renderNodes settings run nodes) (renderNodes settings run' nodes) :=
  hrun.congruence.renderNodes 0 nodes hm hg

end Accords

/-! ### Runs -/

/-- Runs a sub-template as `runSubtemplate` does if its body passes a test, and does `other` if it does
not. -/
def runTested (settings : Settings) (test : List Node → Bool) (other : Rendering Unit) :
    (remaining : Nat) → Runner
  | remaining, name, arguments, span => do
    match (← get).registry.lookup name with
    | none => return
    | some subtemplate =>
      match remaining with
      | 0 => throw (.callDepth name maxDepth span)
      | remaining + 1 =>
        if test subtemplate.body then
          let _ ← underFrames (subtemplate.frame arguments :: subtemplate.captured)
            (renderNodes settings (runTested settings test other remaining) subtemplate.body)
        else other

section Runs

variable {settings : Settings} {test : List Node → Bool} {other : Rendering Unit}

/-- A test that every body passes changes nothing. -/
theorem runTested_of_pass (htest : ∀ body, test body = true) :
    runTested settings test other = runSubtemplate settings := by
  funext remaining name arguments span
  -- by induction on the depth, since the body is rendered with the runner one below
  induction remaining generalizing name arguments span with
  | zero =>
    unfold runTested runSubtemplate
    exact bind_congr fun page => by cases page.registry.lookup name <;> rfl
  | succ remaining ih =>
    have hrun : runTested settings test other remaining = runSubtemplate settings remaining := by
      funext name arguments span
      exact ih name arguments span
    unfold runTested runSubtemplate
    refine bind_congr fun page => ?_
    cases page.registry.lookup name with
    | none => rfl
    | some s => simp only [htest, hrun, if_true]

/-- Runs come out alike, however many may still be nested, if the bodies that are admitted pass the
test. -/
theorem alike_runTested {a : Accord} (htest : ∀ body, a.Admits true body → test body = true)
    (hsound : ∀ mark, a.mark mark → ∀ e ∈ mark.expressions, e.Sound a.seen a.fault)
    (hdepth : ∀ name expressions span, a.mark (.run name expressions span) →
      a.fault (.callDepth name maxDepth span))
    (hguard : a.guard true → ∀ name context, settings.asked = some (name, context) →
      a.fault (.callDepth name maxDepth (.at 0)))
    (remaining : Nat) (name : String) (arguments : List Value) (span : Span)
    (hspan : remaining = 0 → a.fault (.callDepth name maxDepth span)) :
    Alike a.Pages a.fault (runSubtemplate settings remaining name arguments span)
      (runTested settings test other remaining name arguments span) := by
  -- by induction on how many bodies may still be nested
  induction remaining generalizing name arguments span with
  | zero =>
    rw [runSubtemplate, runTested]
    refine .get_bind fun p p' hp => ?_
    rw [← hp.registry]
    cases p.registry.lookup name with
    | none => exact .pure _
    | some s => exact .throw (hspan rfl)
  | succ remaining ih =>
    -- what the body itself runs comes out alike by the induction
    have hinner : a.Runs settings true (runSubtemplate settings remaining)
        (runTested settings test other remaining) :=
      ⟨hsound, fun name expressions span hmark arguments =>
          ih name arguments span fun _ => hdepth name expressions span hmark,
        fun hinner name context hasked => ih name [context] _ fun _ => hguard hinner name context hasked⟩
    rw [runSubtemplate, runTested]
    refine .get_bind fun p p' hp => ?_
    rw [← hp.registry]
    cases hlookup : p.registry.lookup name with
    | none => exact .pure _
    | some s =>
      -- the body comes from the registry
      have hbody := hp.known name s hlookup
      simp only [htest s.body hbody, if_true]
      exact .bind (alike_underFrames _ (alike_renderNodes hinner s.body hbody.marks hbody.guards))
        fun _ => .pure _

/-- Nodes that are rendered as a whole come out alike, whatever is done to bodies that are not
admitted. -/
theorem alike_whole {a : Accord} (htest : ∀ body, a.Admits true body → test body = true)
    (hsound : ∀ mark, a.mark mark → ∀ e ∈ mark.expressions, e.Sound a.seen a.fault)
    (hdepth : ∀ name expressions span, a.mark (.run name expressions span) →
      a.fault (.callDepth name maxDepth span))
    (hguard : a.guard true → ∀ name context, settings.asked = some (name, context) →
      a.fault (.callDepth name maxDepth (.at 0)))
    {nodes : List Node} (hnodes : a.Admits false nodes) :
    Alike a.Pages a.fault (renderNodes settings (runSubtemplate settings maxDepth) nodes)
      (renderNodes settings (runTested settings test other maxDepth) nodes) := by
  -- at the outermost level no run is refused, so the span of a run does not matter
  have hruns (name : String) (arguments : List Value) (span : Span) :
      Alike a.Pages a.fault (runSubtemplate settings maxDepth name arguments span)
        (runTested settings test other maxDepth name arguments span) :=
    alike_runTested htest hsound hdepth hguard maxDepth name arguments span nofun
  have hrun : a.Runs settings false (runSubtemplate settings maxDepth)
      (runTested settings test other maxDepth) :=
    ⟨hsound, fun name _ span _ arguments => hruns name arguments span,
      fun _ name context _ => hruns name [context] _⟩
  exact alike_renderNodes hrun nodes hnodes.marks hnodes.guards

/-- The same where every body is run as it is. -/
theorem alike_whole_self {a : Accord}
    (hsound : ∀ mark, a.mark mark → ∀ e ∈ mark.expressions, e.Sound a.seen a.fault)
    (hdepth : ∀ name expressions span, a.mark (.run name expressions span) →
      a.fault (.callDepth name maxDepth span))
    (hguard : a.guard true → ∀ name context, settings.asked = some (name, context) →
      a.fault (.callDepth name maxDepth (.at 0)))
    {nodes : List Node} (hnodes : a.Admits false nodes) :
    Alike a.Pages a.fault (renderNodes settings (runSubtemplate settings maxDepth) nodes)
      (renderNodes settings (runSubtemplate settings maxDepth) nodes) := by
  have hall : Alike a.Pages a.fault (renderNodes settings (runSubtemplate settings maxDepth) nodes)
      (renderNodes settings (runTested settings (fun _ => true) (pure ()) maxDepth) nodes) :=
    alike_whole (fun _ _ => rfl) hsound hdepth hguard hnodes
  rwa [runTested_of_pass fun _ => rfl] at hall

end Runs

/-! ### Whole renders -/

/-- The settings of a render of a template. -/
def Template.settings (t : Template) (host : Host) (context : Value) (key : String) : Settings where
  host := host
  pageProtocol := t.pageProtocol
  escapeDefault := t.escapeDefault
  asked := if key.isEmpty then none else some (key, context)

/-- The page that a render begins with. -/
def startPage (context : Value) (key : String) : Page where
  memory := { scope := { root := if key.isEmpty then rootBindings context else [("value", context)] } }

/-- What a render comes to: the output of the page that it leaves, or its fault. -/
def resultOf : EStateM.Result RenderFault Page Flow → Except RenderFault String
  | .ok _ page => .ok page.output
  | .error fault _ => .error fault

theorem Template.render_eq_resultOf (t : Template) (host : Host) (context : Value) (key : String) :
    t.render host context key =
      resultOf (renderNodes (t.settings host context key)
        (runSubtemplate (t.settings host context key) maxDepth) t.nodes (startPage context key)) := rfl

theorem SameOutcome.resultOf_eq {seen : String → Prop} {Known : List Node → Prop}
    {P : RenderFault → Prop} {r r' : EStateM.Result RenderFault Page Flow}
    (h : SameOutcome (Page.AgreeOn seen Known) P r r') : resultOf r = resultOf r' := by
  cases h with
  | ok hpages => exact congrArg Except.ok hpages.output
  | error _ _ => rfl

theorem SameOutcome.fault_of_resultOf {R : Page → Page → Prop} {P : RenderFault → Prop}
    {r r' : EStateM.Result RenderFault Page Flow} {fault : RenderFault}
    (h : SameOutcome R P r r') (hr : resultOf r = .error fault) : P fault := by
  cases h with
  | ok _ => cases hr
  | error hfault _ =>
    cases hr
    exact hfault

end Stencil
