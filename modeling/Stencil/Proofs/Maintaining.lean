/-
Stencil/Proofs/Maintaining.lean

Invariants of evaluations.  All that an evaluation does to the memory is to assign to
names and to count the arrays and objects that it makes.  So an invariant that survives
these two (`MemoryInvariant`) holds after every evaluation, whether it answers or stops
with a fault (`maintains_evaluate`).
-/
import Stencil.Evaluate

namespace Stencil

/-- The memory that an evaluation leaves. -/
def Evaluation.leaves {α : Type} (evaluation : Evaluation α) (m : Memory) : Memory :=
  match evaluation m with
  | .ok _ m => m
  | .error _ m => m

/-- An evaluation maintains an invariant of the memory. -/
def Maintains {α : Type} (Inv : Memory → Prop) (evaluation : Evaluation α) : Prop :=
  ∀ m, Inv m → Inv (evaluation.leaves m)

/-- What it takes for an invariant to be maintained by evaluations. -/
structure MemoryInvariant (Inv : Memory → Prop) : Prop where
  made : ∀ m made, Inv m → Inv { m with made }
  assign : ∀ m name v, Inv m → Inv { m with scope := m.scope.assign name v }

section Combinators

variable {α β : Type} {Inv : Memory → Prop}

theorem Maintains.of_ok {evaluation : Evaluation α} (h : Maintains Inv evaluation) {m left : Memory}
    {a : α} (hm : evaluation m = .ok a left) (hinv : Inv m) : Inv left := by
  have hleft := h m hinv
  rwa [Evaluation.leaves, hm] at hleft

theorem Maintains.of_error {evaluation : Evaluation α} (h : Maintains Inv evaluation)
    {m left : Memory} {fault : RenderFault} (hm : evaluation m = .error fault left) (hinv : Inv m) :
    Inv left := by
  have hleft := h m hinv
  rwa [Evaluation.leaves, hm] at hleft

theorem Maintains.pure (a : α) : Maintains Inv (Pure.pure a : Evaluation α) := fun _ h => h

theorem Maintains.bind {evaluation : Evaluation α} {f : α → Evaluation β}
    (h : Maintains Inv evaluation) (hf : ∀ a, Maintains Inv (f a)) :
    Maintains Inv (evaluation >>= f) := by
  intro m hinv
  show Inv (Evaluation.leaves (EStateM.bind evaluation f) m)
  rw [Evaluation.leaves, EStateM.bind]
  cases hm : evaluation m with
  | ok a left => exact hf a left (h.of_ok hm hinv)
  | error fault left => exact h.of_error hm hinv

theorem Maintains.get_bind {f : Memory → Evaluation α} (hf : ∀ m, Maintains Inv (f m)) :
    Maintains Inv (MonadState.get >>= f) :=
  fun m h => hf m m h

theorem Maintains.throw (fault : RenderFault) :
    Maintains Inv (MonadExcept.throw fault : Evaluation α) := fun _ h => h

theorem Maintains.modifyGet {change : Memory → α × Memory} (h : ∀ m, Inv m → Inv (change m).2) :
    Maintains Inv (modifyGet change : Evaluation α) := h

end Combinators

/-! ### Evaluations -/

section Evaluations

variable {Inv : Memory → Prop} {services : Services}

theorem maintains_newIdentity (hinv : MemoryInvariant Inv) : Maintains Inv newIdentity :=
  .modifyGet fun m h => hinv.made m _ h

theorem maintains_readMember (v : Value) (key : String) (span : Span) :
    Maintains Inv (readMember v key span) := by
  rw [readMember]
  split
  · exact .throw _
  · exact .pure _

theorem maintains_callFunction (hinv : MemoryInvariant Inv) (f : Function) (arguments : List Value)
    (span : Span) : Maintains Inv (callFunction services f arguments span) := by
  cases f with
  | builtin b => exact .pure _
  | host name =>
    refine .bind (.modifyGet fun m h => hinv.made m _ h) fun answer => ?_
    cases answer with
    | ok v => exact .pure _
    | error message => exact .throw _

theorem maintains_guarded (e : Expression) {evaluation : Evaluation Value}
    (h : Maintains Inv evaluation) : Maintains Inv (e.guarded evaluation) := by
  cases e with
  | identifier span name => exact .get_bind fun m => .pure _
  | _ => exact h

mutual

theorem maintains_evaluate (hinv : MemoryInvariant Inv) :
    (e : Expression) → Maintains Inv (evaluate services e)
  -- an evaluation changes the memory where it makes a value or assigns to a name, and only there; a
  -- fault leaves what has been done
  | .literal .. => by
    rw [evaluate]
    exact .pure _
  | .identifier .. => by
    rw [evaluate]
    refine .get_bind fun m => ?_
    split
    · exact .pure _
    · exact .throw _
  | .array _ items => by
    rw [evaluate]
    exact .bind (maintains_evaluateAll hinv items) fun values =>
      .bind (maintains_newIdentity hinv) fun id => .pure _
  | .object _ entries => by
    rw [evaluate]
    exact .bind (maintains_evaluateEntries hinv entries) fun values =>
      .bind (maintains_newIdentity hinv) fun id => .pure _
  | .member _ object _ => by
    rw [evaluate]
    exact .bind (maintains_evaluate hinv object) fun v => maintains_readMember v _ _
  | .index _ object index => by
    rw [evaluate]
    exact .bind (maintains_evaluate hinv object) fun v =>
      .bind (maintains_evaluate hinv index) fun key => maintains_readMember v _ _
  | .call span callee arguments => by
    have harguments := maintains_evaluateAll hinv arguments
    -- a member that is called has a form of its own in the interpreter
    by_cases hmember : ∃ place object property, callee = .member place object property
    · obtain ⟨place, object, property, rfl⟩ := hmember
      rw [evaluate]
      refine .bind (maintains_evaluate hinv object) fun receiver =>
        .bind (maintains_readMember receiver _ _) fun v => ?_
      split
      · exact .bind harguments fun values => maintains_callFunction hinv _ _ _
      · refine .bind harguments fun values => .bind (maintains_newIdentity hinv) fun id => ?_
        split
        · exact .pure _
        · exact .throw _
      · exact .throw _
    · rw [evaluate]
      · refine .bind (maintains_evaluate hinv callee) fun v => ?_
        split
        · exact .bind harguments fun values => maintains_callFunction hinv _ _ _
        · exact .throw _
      · exact fun place object property hcall => hmember ⟨place, object, property, hcall⟩
  | .unary _ operator operand => by
    have hoperand := maintains_evaluate hinv operand
    -- `typeof` does not look its name up as the other operators do
    by_cases htype : operator = .typeOf
    · subst htype
      rw [evaluate]
      exact .bind (maintains_guarded operand hoperand) fun v => .pure _
    · rw [evaluate]
      · exact .bind hoperand fun v => .pure _
      · exact htype
  | .binary _ _ left right => by
    rw [evaluate]
    -- the right side is not evaluated where the left one decides
    refine .bind (maintains_evaluate hinv left) fun a => ?_
    split
    · exact .pure _
    · exact .bind (maintains_evaluate hinv right) fun b => .pure _
  | .conditional _ condition consequent alternative => by
    rw [evaluate]
    refine .bind (maintains_evaluate hinv condition) fun v => ?_
    split
    · exact maintains_evaluate hinv consequent
    · exact maintains_evaluate hinv alternative
  | .assign _ name value => by
    rw [evaluate]
    exact .bind (maintains_evaluate hinv value) fun v =>
      .bind (.modifyGet fun m h => hinv.assign m name v h) fun _ => .pure _

theorem maintains_evaluateAll (hinv : MemoryInvariant Inv) :
    (es : List Expression) → Maintains Inv (evaluateAll services es)
  | [] => by
    rw [evaluateAll]
    exact .pure _
  | e :: es => by
    rw [evaluateAll]
    exact .bind (maintains_evaluate hinv e) fun v =>
      .bind (maintains_evaluateAll hinv es) fun vs => .pure _

theorem maintains_evaluateEntries (hinv : MemoryInvariant Inv) :
    (entries : List (String × Expression)) → Maintains Inv (evaluateEntries services entries)
  | [] => by
    rw [evaluateEntries]
    exact .pure _
  | (_, e) :: entries => by
    rw [evaluateEntries]
    exact .bind (maintains_evaluate hinv e) fun v =>
      .bind (maintains_evaluateEntries hinv entries) fun vs => .pure _

end

theorem maintains_evaluateGuarded (hinv : MemoryInvariant Inv) (e : Expression) :
    Maintains Inv (evaluateGuarded services e) :=
  maintains_guarded e (maintains_evaluate hinv e)

end Evaluations

end Stencil
