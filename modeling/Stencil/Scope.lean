/-
Stencil/Scope.lean

The names that are bound at a point of a render.  The root holds the names of the
context and those that are bound outside of all blocks; every item of a loop,
branch of a loop without items and run of a sub-template lays a frame over it.

An assignment walks through the frames one by one.  It changes what a change in the one
row of all their bindings would change (`rebindIn?_flatten`), and the frames keep their
names (`names_rebindIn?`).
-/
import Stencil.Value

namespace Stencil

/-- The names that one block binds, the newest first. -/
abbrev Frame := Bindings Value

/-- The names that a frame binds, in the order in which they were bound. -/
def Frame.names (frame : Frame) : List String := (frame.map Prod.fst).reverse

theorem Frame.mem_names {frame : Frame} {binding : String × Value} (h : binding ∈ frame) :
    binding.1 ∈ frame.names :=
  List.mem_reverse.mpr (List.mem_map_of_mem h)

/-- The names that are bound, with the innermost frame first. -/
structure Scope where
  root : Bindings Value
  frames : List Frame := []

/-- Changes the value of the innermost binding of a name in some frames, if one of them binds it. -/
def rebindIn? (name : String) (value : Value) : List Frame → Option (List Frame)
  | [] => none
  | frame :: frames =>
    match Bindings.rebind? name value frame with
    | some frame => some (frame :: frames)
    | none => (rebindIn? name value frames).map (frame :: ·)

namespace Scope

/-- All bindings, from the newest of the innermost frame down to the root. -/
def bindings (s : Scope) : List (String × Value) := s.frames.flatten ++ s.root

/-- What a name stands for. -/
def lookup? (s : Scope) (name : String) : Option Value := s.bindings.lookup name

/-- Binds a name in the innermost frame, or in the root if there is none. -/
def declare (name : String) (value : Value) (s : Scope) : Scope :=
  match s.frames with
  | [] => { s with root := s.root.put name value }
  | frame :: frames => { s with frames := ((name, value) :: frame) :: frames }

/-- Changes what the innermost binding of a name stands for.  A name that no frame binds is bound in
the root. -/
def assign (name : String) (value : Value) (s : Scope) : Scope :=
  match rebindIn? name value s.frames with
  | some frames => { s with frames }
  | none => { s with root := s.root.put name value }

/-- Lays a frame over the others. -/
def push (frame : Frame) (s : Scope) : Scope := { s with frames := frame :: s.frames }

/-- Takes the innermost frame away. -/
def pop (s : Scope) : Scope := { s with frames := s.frames.tail }

end Scope

/-! ### Changing a binding in some frames -/

section Frames

variable {name : String} {value : Value} {frames changed : List Frame}

theorem mem_flatMap_names :
    name ∈ frames.flatMap Frame.names ↔ name ∈ frames.flatten.map Prod.fst := by
  rw [List.map_flatten, ← List.flatMap_def]
  simp only [List.mem_flatMap, Frame.names, List.mem_reverse]

theorem names_rebindIn? (h : rebindIn? name value frames = some changed) :
    changed.map Frame.names = frames.map Frame.names := by
  induction frames generalizing changed with
  | nil => cases h
  | cons frame frames ih =>
    rw [rebindIn?] at h
    split at h
    · next rebound hrebound =>
      cases h
      simp only [List.map_cons, Frame.names, Bindings.keys_rebind? hrebound]
    · obtain ⟨others, hothers, rfl⟩ := Option.map_eq_some_iff.mp h
      exact congrArg (Frame.names frame :: ·) (ih hothers)

theorem length_rebindIn? (h : rebindIn? name value frames = some changed) :
    changed.length = frames.length := by
  rw [← List.length_map Frame.names, names_rebindIn? h, List.length_map]

/-- The frames are searched as if their bindings stood in one row. -/
theorem rebindIn?_flatten (name : String) (value : Value) (frames : List Frame) :
    (rebindIn? name value frames).map List.flatten =
      Bindings.rebind? name value frames.flatten := by
  induction frames with
  | nil => rfl
  | cons frame frames ih =>
    rw [rebindIn?, List.flatten_cons, Bindings.rebind?_append, ← ih]
    cases Bindings.rebind? name value frame with
    | some rebound => rfl
    | none => simp [Function.comp_def]

/-- An assignment goes to the upper frames if one of them binds the name. -/
theorem rebindIn?_append (name : String) (v : Value) (upper lower : List Frame) :
    rebindIn? name v (upper ++ lower) =
      ((rebindIn? name v upper).map (· ++ lower)).or ((rebindIn? name v lower).map (upper ++ ·)) := by
  induction upper with
  | nil => simp [rebindIn?]
  | cons frame upper ih =>
    rw [List.cons_append, rebindIn?, rebindIn?]
    cases Bindings.rebind? name v frame with
    | some rebound => rfl
    | none =>
      simp only [ih]
      cases rebindIn? name v upper with
      | some changed => rfl
      | none => simp [Function.comp_def]

theorem rebindIn?_eq_none_iff :
    rebindIn? name value frames = none ↔ name ∉ frames.flatMap Frame.names := by
  rw [← Option.map_eq_none_iff (f := List.flatten), rebindIn?_flatten, Bindings.rebind?_eq_none_iff,
    mem_flatMap_names]

end Frames

end Stencil
