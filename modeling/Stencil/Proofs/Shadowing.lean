/-
Stencil/Proofs/Shadowing.lean

A scope is a stack of bindings that shadow one another.  `Scope.row` lays them out: the
bindings of the root, then those of the frames from the outermost to the innermost, in
each frame the oldest first.  A name stands for what its last binding in the row says
(`Scope.lookup?_eq_some_iff`), and an assignment changes that very binding
(`Scope.assign_last`).  Neither an assignment nor a declaration is seen by a look-up of
another name.

The walks through a scope go the other way, from the innermost frame and in each frame
from its newest binding, but through the root from its start.  That comes to the same
only because the root binds every name once, which whatever is done to a scope keeps up
(`Scope.nodup_root_after`); in a frame a name may be bound again and again.

For a block a frame is laid over the others.  `Scope.Over base n s` says that `s` has `n`
frames over those of `base` and is `base` below them.  As long as one of the `n` frames
binds the names that are assigned to, nothing reaches `base`, so that taking the frame of
the block away leaves `base` itself (`Scope.pop_after_block`).

The main result, `scopes_shadow`, puts these together for every scope that comes about.
-/
import Mathlib.Data.List.DropRight
import Stencil.Scope

namespace Stencil

/-! ### The last binding of a name -/

/-- The last binding of the name in the row has the value.  It stands between `earlier` and `later`. -/
structure LastBinding (name : String) (value : Value) (earlier later row : List (String × Value)) :
    Prop where
  row_eq : row = earlier ++ (name, value) :: later
  unbound : name ∉ later.map Prod.fst

theorem lookup_reverse_eq_some_iff {name : String} {value : Value} {row : List (String × Value)} :
    row.reverse.lookup name = some value ↔
      ∃ earlier later, LastBinding name value earlier later row := by
  rw [List.lookup_eq_some_iff]
  constructor
  · rintro ⟨later, earlier, hrow, hlater⟩
    refine ⟨earlier.reverse, later.reverse, ?_, ?_⟩
    · rw [← List.reverse_reverse row, hrow]
      simp
    · intro hmem
      obtain ⟨entry, hentry, rfl⟩ := List.mem_map.mp hmem
      simpa using hlater entry (List.mem_reverse.mp hentry)
  · rintro ⟨earlier, later, rfl, hunbound⟩
    refine ⟨later.reverse, earlier.reverse, by simp, fun entry hentry => ?_⟩
    rw [bne_iff_ne]
    rintro rfl
    exact hunbound (List.mem_map_of_mem (List.mem_reverse.mp hentry))

namespace LastBinding

variable {name : String} {value : Value} {earlier later row others : List (String × Value)}

theorem append_left (row : List (String × Value)) (h : LastBinding name value earlier later others) :
    LastBinding name value (row ++ earlier) later (row ++ others) := by
  refine ⟨?_, h.unbound⟩
  rw [h.row_eq, List.append_assoc]

theorem append_right (h : LastBinding name value earlier later row)
    (hothers : name ∉ others.map Prod.fst) :
    LastBinding name value earlier (later ++ others) (row ++ others) := by
  refine ⟨?_, ?_⟩
  · rw [h.row_eq, List.append_assoc, List.cons_append]
  · rw [List.map_append, List.mem_append, not_or]
    exact ⟨h.unbound, hothers⟩

/-- The last binding in two rows stands in the second one, or in the first one if the second one does not
bind the name. -/
theorem append_cases (h : LastBinding name value earlier later (row ++ others)) :
    (∃ earlier', earlier = row ++ earlier' ∧ LastBinding name value earlier' later others) ∨
      ∃ later', later = later' ++ others ∧ LastBinding name value earlier later' row ∧
        name ∉ others.map Prod.fst := by
  obtain ⟨hrow, hunbound⟩ := h
  rcases List.append_eq_append_iff.mp hrow with ⟨earlier', rfl, rfl⟩ | ⟨rest, rfl, hrest⟩
  · exact .inl ⟨earlier', rfl, rfl, hunbound⟩
  · rcases List.cons_eq_append_iff.mp hrest with ⟨rfl, rfl⟩ | ⟨later', rfl, rfl⟩
    · exact .inl ⟨[], by simp, rfl, hunbound⟩
    · rw [List.map_append, List.mem_append, not_or] at hunbound
      exact .inr ⟨later', rfl, ⟨rfl, hunbound.1⟩, hunbound.2⟩

end LastBinding

namespace Scope

/-- All bindings in one row: those of the root, then those of the frames from the outermost to the
innermost, in each frame the oldest first. -/
def row (s : Scope) : List (String × Value) := s.root ++ s.frames.reverse.flatMap List.reverse

variable {s base : Scope} {name : String} {value old : Value}
  {earlier later : List (String × Value)}

theorem row_eq (s : Scope) : s.row = s.root ++ s.frames.flatten.reverse := by
  rw [row, List.reverse_flatten, List.flatMap_def, List.map_reverse]

/-! ### Looking up -/

theorem lookup?_eq_none_iff : s.lookup? name = none ↔ name ∉ s.row.map Prod.fst := by
  rw [lookup?, Bindings.lookup_eq_none_iff, bindings, row_eq]
  simp only [List.map_append, List.map_reverse, List.mem_append, List.mem_reverse, or_comm]

theorem lookup?_eq_some_iff (hroot : (s.root.map Prod.fst).Nodup) :
    s.lookup? name = some value ↔ ∃ earlier later, LastBinding name value earlier later s.row := by
  -- a look-up goes through the root from its start, but there every name is bound once
  have hreverse : s.root.reverse.lookup name = s.root.lookup name :=
    (Bindings.lookup_eq_of_perm s.root.reverse_perm.symm hroot name).symm
  have hrow : s.lookup? name = s.row.reverse.lookup name := by
    rw [lookup?, bindings, row_eq, List.reverse_append, List.reverse_reverse, List.lookup_append,
      List.lookup_append, hreverse]
  rw [hrow, lookup_reverse_eq_some_iff]

/-! ### Assigning -/

theorem assign_of_notMem (h : name ∉ s.frames.flatMap Frame.names) :
    s.assign name value = { s with root := s.root.put name value } := by
  rw [assign, rebindIn?_eq_none_iff.mpr h]

theorem lookup?_assign (s : Scope) (name : String) (value : Value) (other : String) :
    (s.assign name value).lookup? other = if other = name then some value else s.lookup? other := by
  rw [assign]
  cases hframes : rebindIn? name value s.frames with
  | some changed =>
    have hchanged : Bindings.rebind? name value s.frames.flatten = some changed.flatten := by
      rw [← rebindIn?_flatten, hframes, Option.map_some]
    simp only [lookup?, bindings, List.lookup_append, Bindings.lookup_rebind? hchanged]
    split <;> rfl
  | none =>
    have hnone : s.frames.flatten.lookup name = none := by
      rw [Bindings.lookup_eq_none_iff, ← mem_flatMap_names]
      exact rebindIn?_eq_none_iff.mp hframes
    simp only [lookup?, bindings, List.lookup_append, Bindings.lookup_put]
    split
    · next hother => rw [hother, hnone, Option.none_or]
    · rfl

/-- The last binding of the name gets the value, and nothing else changes. -/
theorem assign_last (hroot : (s.root.map Prod.fst).Nodup)
    (h : LastBinding name old earlier later s.row) :
    LastBinding name value earlier later (s.assign name value).row ∧
      (s.assign name value).frames.map Frame.names = s.frames.map Frame.names := by
  rw [row_eq] at h
  rcases h.append_cases with ⟨earlier, rfl, hframes⟩ | ⟨later, rfl, hbound, hunbound⟩
  · -- a frame binds the name
    have hflatten : s.frames.flatten = later.reverse ++ (name, old) :: earlier.reverse := by
      rw [← List.reverse_reverse s.frames.flatten, hframes.row_eq]
      simp
    have hlater : name ∉ later.reverse.map Prod.fst := by
      rw [List.map_reverse, List.mem_reverse]
      exact hframes.unbound
    have hrebind := rebindIn?_flatten name value s.frames
    rw [hflatten, Bindings.rebind?_first hlater] at hrebind
    obtain ⟨changed, hchanged, hchangedRow⟩ := Option.map_eq_some_iff.mp hrebind
    have hassign : s.assign name value = { s with frames := changed } := by rw [assign, hchanged]
    rw [hassign, row_eq]
    refine ⟨.append_left s.root ⟨?_, hframes.unbound⟩, names_rebindIn? hchanged⟩
    show changed.flatten.reverse = earlier ++ (name, value) :: later
    rw [hchangedRow]
    simp
  · -- only the root binds it, and there the last binding is the first one
    have hearlier : name ∉ earlier.map Prod.fst := by
      rw [hbound.row_eq, List.map_append, List.map_cons] at hroot
      exact fun hmem => (List.nodup_append.mp hroot).2.2 _ hmem _ List.mem_cons_self rfl
    have hput : s.root.put name value = earlier ++ (name, value) :: later := by
      rw [Bindings.put_eq, hbound.row_eq, Bindings.rebind?_first hearlier, Option.getD_some]
    have hframes : name ∉ s.frames.flatMap Frame.names := by
      rwa [List.map_reverse, List.mem_reverse, ← mem_flatMap_names] at hunbound
    rw [assign_of_notMem hframes, row_eq]
    exact ⟨.append_right ⟨hput, hbound.unbound⟩ hunbound, rfl⟩

/-- A name that nothing binds is bound at the end of the root. -/
theorem assign_of_unbound (h : name ∉ s.row.map Prod.fst) :
    s.assign name value = { s with root := s.root ++ [(name, value)] } := by
  rw [row_eq, List.map_append, List.mem_append, not_or, List.map_reverse, List.mem_reverse,
    ← mem_flatMap_names] at h
  rw [assign_of_notMem h.2, Bindings.put_of_lookup_none value (Bindings.lookup_eq_none_iff.mpr h.1)]

/-! ### Declaring -/

/-- Outside of all frames a declaration does what an assignment does. -/
theorem declare_of_nil (h : s.frames = []) : s.declare name value = s.assign name value := by
  rw [declare, assign, h]
  rfl

theorem lookup?_declare (s : Scope) (name : String) (value : Value) (other : String) :
    (s.declare name value).lookup? other = if other = name then some value else s.lookup? other := by
  cases hframes : s.frames with
  | nil => rw [declare_of_nil hframes, lookup?_assign]
  | cons frame frames =>
    simp only [declare, hframes, lookup?, bindings, List.flatten_cons, List.cons_append,
      Bindings.lookup_cons]

/-! ### Changes -/

/-- What can be done to a scope. -/
inductive Change where
  | declare (name : String) (value : Value)
  | assign (name : String) (value : Value)
  | push (frame : Frame)
  | pop
  /-- Other frames come over the root, in place of those that are there. -/
  | replace (frames : List Frame)

/-- The scope after a change. -/
def Change.apply (s : Scope) : Change → Scope
  | .declare name value => s.declare name value
  | .assign name value => s.assign name value
  | .push frame => s.push frame
  | .pop => s.pop
  | .replace frames => { s with frames }

/-- The scope after some changes, from first to last. -/
def after (s : Scope) (changes : List Change) : Scope := changes.foldl Change.apply s

theorem after_cons (s : Scope) (change : Change) (changes : List Change) :
    s.after (change :: changes) = (change.apply s).after changes := rfl

theorem after_append (s : Scope) (changes others : List Change) :
    s.after (changes ++ others) = (s.after changes).after others := List.foldl_append

/-- The root goes on binding every name once. -/
theorem Change.nodup_root (change : Change) (h : (s.root.map Prod.fst).Nodup) :
    ((change.apply s).root.map Prod.fst).Nodup := by
  cases change with
  | declare name value =>
    rw [apply, Scope.declare]
    split
    · exact Bindings.nodup_put h
    · exact h
  | assign name value =>
    rw [apply, Scope.assign]
    split
    · exact h
    · exact Bindings.nodup_put h
  | push frame => exact h
  | pop => exact h
  | replace frames => exact h

theorem nodup_root_after (h : (s.root.map Prod.fst).Nodup) (changes : List Change) :
    ((s.after changes).root.map Prod.fst).Nodup := by
  induction changes generalizing s with
  | nil => exact h
  | cons change changes ih => exact ih (change.nodup_root h)

/-! ### Blocks -/

/-- The changes that a block makes: declarations, assignments, and those of the blocks in it, each of which
lays a frame over the others and takes it away again. -/
inductive WellNested : List Change → Prop
  | nil : WellNested []
  | declare (name : String) (value : Value) {rest : List Change} :
      WellNested rest → WellNested (.declare name value :: rest)
  | assign (name : String) (value : Value) {rest : List Change} :
      WellNested rest → WellNested (.assign name value :: rest)
  | block (frame : Frame) {inner rest : List Change} :
      WellNested inner → WellNested rest → WellNested (.push frame :: (inner ++ .pop :: rest))

/-- One of the frames over the `below` outermost ones binds the name. -/
def BindsAbove (below : Nat) (s : Scope) (name : String) : Prop :=
  name ∈ (s.frames.rdrop below).flatMap Frame.names

/-- If the change is an assignment, then to a name that such a frame binds. -/
def Change.StaysAbove (below : Nat) (s : Scope) : Change → Prop
  | .assign name _ => s.BindsAbove below name
  | _ => True

/-- Each of the changes assigns at most to a name that such a frame binds when its turn comes. -/
def Confined (below : Nat) : Scope → List Change → Prop
  | _, [] => True
  | s, change :: changes => change.StaysAbove below s ∧ Confined below (change.apply s) changes

instance decidableStaysAbove (below : Nat) (s : Scope) :
    (change : Change) → Decidable (change.StaysAbove below s)
  | .assign name _ => inferInstanceAs (Decidable (name ∈ (s.frames.rdrop below).flatMap Frame.names))
  | .declare _ _ | .push _ | .pop | .replace _ => .isTrue trivial

instance decidableConfined (below : Nat) :
    (s : Scope) → (changes : List Change) → Decidable (Confined below s changes)
  | _, [] => .isTrue trivial
  | s, change :: changes =>
    have := decidableConfined below (change.apply s) changes
    inferInstanceAs (Decidable (change.StaysAbove below s ∧ Confined below _ changes))

theorem confined_append {below : Nat} {changes others : List Change}
    (h : Confined below s (changes ++ others)) :
    Confined below s changes ∧ Confined below (s.after changes) others := by
  induction changes generalizing s with
  | nil => exact ⟨trivial, h⟩
  | cons change changes ih =>
    obtain ⟨hchanges, hothers⟩ := ih h.2
    exact ⟨⟨h.1, hchanges⟩, hothers⟩

/-- The scope `s` has `n` frames over those of `base`, and is `base` below them. -/
structure Over (base : Scope) (n : Nat) (s : Scope) : Prop where
  root : s.root = base.root
  frames : ∃ upper, upper.length = n ∧ s.frames = upper ++ base.frames

namespace Over

variable {n : Nat}

theorem start (s : Scope) : s.Over 0 s := ⟨rfl, [], rfl, rfl⟩

theorem eq (h : base.Over 0 s) : s = base := by
  obtain ⟨root, frames⟩ := s
  obtain ⟨hroot, upper, hupper, hframes⟩ := h
  obtain rfl : upper = [] := List.length_eq_zero_iff.mp hupper
  obtain rfl : root = base.root := hroot
  obtain rfl : frames = base.frames := hframes
  rfl

theorem push (h : base.Over n s) (frame : Frame) : base.Over (n + 1) (s.push frame) := by
  obtain ⟨hroot, upper, hupper, hframes⟩ := h
  exact ⟨hroot, frame :: upper, congrArg (· + 1) hupper, congrArg (frame :: ·) hframes⟩

theorem pop (h : base.Over (n + 1) s) : base.Over n s.pop := by
  obtain ⟨hroot, upper, hupper, hframes⟩ := h
  obtain ⟨frame, upper, rfl⟩ := List.exists_cons_of_length_eq_add_one hupper
  exact ⟨hroot, upper, Nat.succ.inj hupper, congrArg List.tail hframes⟩

theorem declare (h : base.Over (n + 1) s) (name : String) (value : Value) :
    base.Over (n + 1) (s.declare name value) := by
  obtain ⟨hroot, upper, hupper, hframes⟩ := h
  obtain ⟨frame, upper, rfl⟩ := List.exists_cons_of_length_eq_add_one hupper
  rw [Scope.declare, hframes]
  exact ⟨hroot, ((name, value) :: frame) :: upper, hupper, rfl⟩

theorem assign (h : base.Over n s) (hname : s.BindsAbove base.frames.length name)
    (value : Value) : base.Over n (s.assign name value) := by
  obtain ⟨hroot, upper, hupper, hframes⟩ := h
  -- what is left without the outermost frames is what lies over `base`
  have habove : name ∈ upper.flatMap Frame.names := by
    rw [BindsAbove, hframes, List.rdrop, List.length_append, Nat.add_sub_cancel,
      List.take_left] at hname
    exact hname
  cases hchanged : rebindIn? name value upper with
  | none => exact absurd habove (rebindIn?_eq_none_iff.mp hchanged)
  | some changed =>
    have hassign : s.assign name value = { s with frames := changed ++ base.frames } := by
      rw [Scope.assign, hframes, rebindIn?_append, hchanged]
      rfl
    rw [hassign]
    exact ⟨hroot, changed, (length_rebindIn? hchanged).trans hupper, rfl⟩

/-- Changes of a block leave as many frames, and do not reach what is below. -/
theorem after {changes : List Change} (hchanges : WellNested changes) (h : base.Over (n + 1) s)
    (hconfined : Confined base.frames.length s changes) : base.Over (n + 1) (s.after changes) := by
  induction hchanges generalizing s n with
  | nil => exact h
  | declare name value _ ih => exact ih (h.declare name value) hconfined.2
  | assign name value _ ih => exact ih (h.assign hconfined.1 value) hconfined.2
  | block frame _ _ ih ih' =>
    -- the frame of the inner block is one more, until it is taken away
    obtain ⟨hinner, hrest⟩ := confined_append hconfined.2
    have hover := (ih (h.push frame) hinner).pop
    rw [after_cons, after_append]
    exact ih' hover hrest.2

end Over

/-- A block whose assignments stay above what was there leaves the scope that was there. -/
theorem pop_after_block (s : Scope) (frame : Frame) {changes : List Change}
    (hchanges : WellNested changes) (hconfined : Confined s.frames.length (s.push frame) changes) :
    ((s.push frame).after changes).pop = s :=
  (((Over.start s).push frame).after hchanges hconfined).pop.eq

end Scope

/-! ### All laws -/

/-- **A scope is a stack of bindings that shadow one another.**  Take any scope that comes about from a
root, which binds every name once, by any changes.  A name stands for what its last binding says, and for
nothing exactly if nothing binds it.  An assignment gives that last binding the value, in place; a name
that nothing binds is bound in the root.  After an assignment or a declaration the name stands for the
value, and any other name for what it stood for.  Where a frame is laid over the others, the changes made
in the block assign only to names that this frame or one over it binds at that moment, and the frame is
taken away again, the very scope is back, so that every look-up is as before. -/
theorem scopes_shadow (root : Bindings Value) (hroot : (root.map Prod.fst).Nodup)
    (changes : List Scope.Change) :
    let s := ({ root } : Scope).after changes
    (∀ name value, s.lookup? name = some value ↔
      ∃ earlier later, LastBinding name value earlier later s.row) ∧
    (∀ name, s.lookup? name = none ↔ name ∉ s.row.map Prod.fst) ∧
    (∀ name old value earlier later, LastBinding name old earlier later s.row →
      LastBinding name value earlier later (s.assign name value).row ∧
        (s.assign name value).frames.map Frame.names = s.frames.map Frame.names) ∧
    (∀ name value, name ∉ s.row.map Prod.fst →
      s.assign name value = { s with root := s.root ++ [(name, value)] }) ∧
    (∀ name value other, (s.assign name value).lookup? other =
      if other = name then some value else s.lookup? other) ∧
    (∀ name value other, (s.declare name value).lookup? other =
      if other = name then some value else s.lookup? other) ∧
    (∀ frame block, Scope.WellNested block →
      Scope.Confined s.frames.length (s.push frame) block → ((s.push frame).after block).pop = s) := by
  intro s
  have hs : (s.root.map Prod.fst).Nodup := Scope.nodup_root_after hroot changes
  refine ⟨?_, ?_, ?_, ?_, s.lookup?_assign, s.lookup?_declare, ?_⟩
  · intro name value
    exact Scope.lookup?_eq_some_iff hs
  · intro name
    exact Scope.lookup?_eq_none_iff
  · intro name old value earlier later h
    exact Scope.assign_last hs h
  · intro name value h
    exact Scope.assign_of_unbound h
  · intro frame block hblock hconfined
    exact s.pop_after_block frame hblock hconfined

/-- A name that the root binds, and a frame three times; and a block with another block in it. -/
theorem scopes_shadow_nested :
    let root : Bindings Value := [("x", .text "root"), ("y", .text "1")]
    let changes : List Scope.Change := [.push [("x", .text "item"), ("xIndex", .text "0")],
      .declare "x" (.text "a"), .declare "x" (.text "b"), .push [], .assign "z" (.text "new")]
    let s := ({ root } : Scope).after changes
    let earlier : Bindings Value := [("x", .text "root"), ("y", .text "1"), ("z", .text "new"),
      ("xIndex", .text "0"), ("x", .text "item"), ("x", .text "a")]
    let block : List Scope.Change := [.declare "w" .null, .push [], .assign "y" (.text "3"), .pop,
      .assign "w" (.text "4")]
    (root.map Prod.fst).Nodup ∧ s.row = earlier ++ [("x", .text "b")] ∧
      s.lookup? "x" = some (.text "b") ∧
      (s.assign "x" (.text "c")).row = earlier ++ [("x", .text "c")] ∧
      s.assign "w" .null = { s with root := s.root ++ [("w", .null)] } ∧
      (s.assign "w" .null).lookup? "x" = some (.text "b") ∧
      ((s.push [("y", .text "2")]).after block).pop = s := by
  intro root changes s earlier block
  have hroot : (root.map Prod.fst).Nodup := by decide
  have hlast : LastBinding "x" (.text "b") earlier [] s.row := ⟨rfl, List.not_mem_nil⟩
  have hunbound : "w" ∉ s.row.map Prod.fst := by decide
  have hblock : Scope.WellNested block :=
    .declare _ _ (.block _ (.assign _ _ .nil) (.assign _ _ .nil))
  have hconfined : Scope.Confined s.frames.length (s.push [("y", .text "2")]) block := by
    decide
  obtain ⟨hlookup, -, hassign, hbind, hother, -, hleft⟩ := scopes_shadow root hroot changes
  have hx : s.lookup? "x" = some (.text "b") := (hlookup _ _).mpr ⟨_, _, hlast⟩
  refine ⟨hroot, hlast.row_eq, hx, ?_, hbind _ _ hunbound, ?_, hleft _ _ hblock hconfined⟩
  · exact (hassign _ _ _ _ _ hlast).1.row_eq
  · exact (hother _ _ _).trans hx

end Stencil
