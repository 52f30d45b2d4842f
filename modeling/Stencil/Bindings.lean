/-
Stencil/Bindings.lean

Names with what they stand for, in the order in which they were first bound.
They are read with `List.lookup`; `rebind?` changes the first binding of a name, and
`put` does the same or, for a name that is new, binds it at the end (`put_eq`).  For
both, there are laws about what a look-up finds afterwards, and about which names are
bound, in which order.
-/

namespace Stencil

/-- Names with what they stand for. -/
abbrev Bindings (α : Type) := List (String × α)

namespace Bindings

variable {α : Type}

/-- Binds a name.  A name that is bound keeps its place and takes the new value; a new one goes to the
end. -/
def put (name : String) (value : α) : Bindings α → Bindings α
  | [] => [(name, value)]
  | (n, old) :: rest => if name = n then (n, value) :: rest else (n, old) :: put name value rest

/-- Binds the names of a list one after the other, so the last value of a name counts. -/
def ofList (entries : List (String × α)) : Bindings α :=
  entries.foldl (fun bindings (name, value) => put name value bindings) []

/-- Changes the value of the first binding of a name, if there is one. -/
def rebind? (name : String) (value : α) : Bindings α → Option (Bindings α)
  | [] => none
  | (n, old) :: rest =>
    if name = n then some ((n, value) :: rest) else (rebind? name value rest).map ((n, old) :: ·)

/-! ### What names stand for -/

section Lookup

variable {name : String} {value : α} {bindings bindings' : Bindings α}

theorem lookup_cons (other name : String) (value : α) (rest : Bindings α) :
    List.lookup other ((name, value) :: rest) =
      if other = name then some value else rest.lookup other := by
  rw [List.lookup_cons]
  by_cases h : other = name
  · simp [h]
  · simp [h, beq_false_of_ne]

theorem lookup_eq_none_iff : bindings.lookup name = none ↔ name ∉ bindings.map Prod.fst := by
  rw [List.lookup_eq_none_iff]
  constructor
  · intro h hmem
    obtain ⟨entry, hentry, rfl⟩ := List.mem_map.mp hmem
    simpa using h entry hentry
  · intro h entry hentry
    rw [bne_iff_ne]
    rintro rfl
    exact h (List.mem_map_of_mem hentry)

theorem mem_of_lookup (h : bindings.lookup name = some value) : (name, value) ∈ bindings := by
  obtain ⟨before, after, rfl, -⟩ := List.lookup_eq_some_iff.mp h
  simp

/-- Where every name is bound once, a binding is what its name looks up. -/
theorem lookup_of_mem (hnames : (bindings.map Prod.fst).Nodup) (h : (name, value) ∈ bindings) :
    bindings.lookup name = some value := by
  obtain ⟨before, after, rfl⟩ := List.append_of_mem h
  refine List.lookup_eq_some_iff.mpr ⟨before, after, rfl, fun entry hentry => ?_⟩
  rw [List.map_append, List.map_cons, List.nodup_append] at hnames
  rw [bne_iff_ne]
  exact fun heq => hnames.2.2 _ (List.mem_map_of_mem hentry) _ List.mem_cons_self heq.symm

/-- Where every name is bound once, the order of the bindings does not matter. -/
theorem lookup_eq_of_perm (h : bindings.Perm bindings') (hnames : (bindings.map Prod.fst).Nodup)
    (name : String) : bindings.lookup name = bindings'.lookup name := by
  induction h with
  | nil => rfl
  | cons entry _ ih =>
    obtain ⟨n, v⟩ := entry
    rw [List.lookup_cons, List.lookup_cons, ih (List.nodup_cons.mp hnames).2]
  | swap entry other rest =>
    obtain ⟨n, v⟩ := entry
    obtain ⟨k, w⟩ := other
    -- the two names differ, so at most one of them is looked up
    have hne : k ≠ n := by
      rintro rfl
      simp at hnames
    simp only [List.lookup_cons]
    by_cases hk : name = k
    · simp [hk, beq_false_of_ne hne]
    · simp [beq_false_of_ne hk]
  | trans hfirst _ ih ih' =>
    exact (ih hnames).trans (ih' ((hfirst.map Prod.fst).nodup_iff.mp hnames))

end Lookup

/-! ### Changing a binding -/

section Rebind

variable {name : String} {value old : α} {bindings changed before after : Bindings α}

theorem rebind?_eq_none_iff :
    rebind? name value bindings = none ↔ name ∉ bindings.map Prod.fst := by
  induction bindings with
  | nil => simp [rebind?]
  | cons entry rest ih =>
    by_cases h : name = entry.1 <;> simp [rebind?, h, ih]

/-- The first binding of the name is the one that is changed. -/
theorem rebind?_first (h : name ∉ before.map Prod.fst) :
    rebind? name value (before ++ (name, old) :: after) =
      some (before ++ (name, value) :: after) := by
  induction before with
  | nil => simp [rebind?]
  | cons entry before ih =>
    rw [List.map_cons, List.mem_cons, not_or] at h
    rw [List.cons_append, rebind?, if_neg h.1, ih h.2]
    rfl

theorem rebind?_append (name : String) (value : α) (bindings others : Bindings α) :
    rebind? name value (bindings ++ others) =
      ((rebind? name value bindings).map (· ++ others)).or
        ((rebind? name value others).map (bindings ++ ·)) := by
  induction bindings with
  | nil => simp [rebind?]
  | cons entry rest ih =>
    rw [List.cons_append, rebind?, rebind?]
    split
    · rfl
    · rw [ih]
      cases rebind? name value rest with
      | some changed => rfl
      | none => simp [Function.comp_def]

/-- The names stay, in their order. -/
theorem keys_rebind? (h : rebind? name value bindings = some changed) :
    changed.map Prod.fst = bindings.map Prod.fst := by
  induction bindings generalizing changed with
  | nil => cases h
  | cons entry rest ih =>
    obtain ⟨n, old⟩ := entry
    rw [rebind?] at h
    split at h
    · cases h
      rfl
    · obtain ⟨others, hothers, rfl⟩ := Option.map_eq_some_iff.mp h
      exact congrArg (n :: ·) (ih hothers)

theorem lookup_rebind? (h : rebind? name value bindings = some changed) (other : String) :
    changed.lookup other = if other = name then some value else bindings.lookup other := by
  induction bindings generalizing changed with
  | nil => cases h
  | cons entry rest ih =>
    obtain ⟨n, old⟩ := entry
    rw [rebind?] at h
    split at h
    · next hn =>
      cases h
      subst hn
      rw [lookup_cons, lookup_cons]
      split <;> rfl
    · next hn =>
      obtain ⟨others, hothers, rfl⟩ := Option.map_eq_some_iff.mp h
      rw [lookup_cons, lookup_cons, ih hothers]
      -- the binding in front is of another name
      by_cases ho : other = n
      · rw [if_pos ho, if_pos ho, if_neg fun heq => hn (heq.symm.trans ho)]
      · rw [if_neg ho, if_neg ho]

end Rebind

/-! ### Binding a name -/

section Put

variable {name other : String} {bindings : Bindings α}

/-- A name that is bound is changed, and a new one is bound at the end. -/
theorem put_eq (name : String) (value : α) (bindings : Bindings α) :
    put name value bindings = (rebind? name value bindings).getD (bindings ++ [(name, value)]) := by
  induction bindings with
  | nil => rfl
  | cons entry rest ih =>
    obtain ⟨n, old⟩ := entry
    rw [put, rebind?, ih]
    split
    · rfl
    · cases rebind? name value rest <;> rfl

theorem put_of_lookup_none (value : α) (h : bindings.lookup name = none) :
    put name value bindings = bindings ++ [(name, value)] := by
  rw [put_eq, rebind?_eq_none_iff.mpr (lookup_eq_none_iff.mp h), Option.getD_none]

theorem lookup_put (name : String) (value : α) (bindings : Bindings α) (other : String) :
    (put name value bindings).lookup other =
      if other = name then some value else bindings.lookup other := by
  rw [put_eq]
  cases h : rebind? name value bindings with
  | some changed => exact lookup_rebind? h other
  | none =>
    have hunbound := lookup_eq_none_iff.mpr (rebind?_eq_none_iff.mp h)
    rw [Option.getD_none, List.lookup_append, lookup_cons, List.lookup_nil]
    split
    · next ho => rw [ho, hunbound, Option.none_or]
    · rw [Option.or_none]

@[simp] theorem lookup_put_self (name : String) (value : α) (bindings : Bindings α) :
    (put name value bindings).lookup name = some value := by
  rw [lookup_put, if_pos rfl]

theorem lookup_put_of_ne (h : other ≠ name) (value : α) (bindings : Bindings α) :
    (put name value bindings).lookup other = bindings.lookup other := by
  rw [lookup_put, if_neg h]

/-- Binding a name adds no other binding. -/
theorem mem_put {value : α} {entry : String × α}
    (h : entry ∈ put name value bindings) : entry = (name, value) ∨ entry ∈ bindings := by
  fun_induction put name value bindings with
  | case1 => exact .inl (List.mem_singleton.mp h)
  | case2 => exact (List.mem_cons.mp h).imp_right (List.mem_cons_of_mem _)
  | case3 n old rest hname ih =>
    rcases List.mem_cons.mp h with rfl | h
    · exact .inr List.mem_cons_self
    · exact (ih h).imp_right (List.mem_cons_of_mem _)

/-- The names that are bound stay, in their order. -/
theorem keys_put (name : String) (value : α) (bindings : Bindings α) :
    bindings.map Prod.fst <+: (put name value bindings).map Prod.fst := by
  rw [put_eq]
  cases h : rebind? name value bindings with
  | some changed => exact ⟨[], by rw [List.append_nil, Option.getD_some, keys_rebind? h]⟩
  | none =>
    rw [Option.getD_none, List.map_append]
    exact List.prefix_append _ _

theorem nodup_put {value : α} (hnames : (bindings.map Prod.fst).Nodup) :
    ((put name value bindings).map Prod.fst).Nodup := by
  rw [put_eq]
  cases h : rebind? name value bindings with
  | some changed => rwa [Option.getD_some, keys_rebind? h]
  | none =>
    rw [Option.getD_none, List.map_append, List.nodup_append]
    refine ⟨hnames, List.pairwise_singleton _ _, fun n hn k hk => ?_⟩
    obtain rfl : k = name := List.mem_singleton.mp hk
    rintro rfl
    exact rebind?_eq_none_iff.mp h hn

end Put

end Bindings

end Stencil
