/-
Stencil/Proofs/Visiting.lean

What a loop visits.  The items of an array come with their positions.  The entries of an
object come with their names: first those whose names write indices, ascending, then the
others in the order in which they were put in (`enumerates_entries`).

A visit hands the entries to a function one after the other.  It ends with the first entry
for which the function has an answer, and no entry behind that one is looked at
(`visitEntries_eq_iff`).  The rounds of a loop in a render can fail as well; a fault ends
the loop as an answer does (`visitEntries_answering`).

The main result is `visitEntries_enumerates`.
-/
import Stencil.Proofs.Lexing
import Stencil.Render

namespace Stencil

variable {ε σ β : Type} {entries indexed named : Bindings Value}

/-! ### Indices -/

/-- A name writes an index if it is the decimal of it. -/
theorem indexOfKey?_eq_some_iff {key : String} {n : Nat} :
    indexOfKey? key = some n ↔ n < 2 ^ 32 - 1 ∧ key = Nat.repr n := by
  rw [indexOfKey?, Option.filter_eq_some_iff, Bool.and_eq_true, decide_eq_true_iff,
    decide_eq_true_iff]
  constructor
  · rintro ⟨-, hlt, hdigits⟩
    refine ⟨hlt, ?_⟩
    rw [← String.ofList_toList (s := key), ← hdigits]
    rfl
  · rintro ⟨hlt, rfl⟩
    have hdigits : (Nat.repr n).toList = Number.digitsOf n := String.toList_ofList
    rw [hdigits]
    exact ⟨Number.readIndex?_digitsOf (by omega), hlt, rfl⟩

theorem isSome_indexOfKey?_iff {key : String} :
    (indexOfKey? key).isSome = true ↔ ∃ n < 2 ^ 32 - 1, key = Nat.repr n := by
  simp only [Option.isSome_iff_exists, indexOfKey?_eq_some_iff]

/-! ### The order of properties -/

/-- The entries of an object in two parts: `indexed` are those whose names write indices, ascending,
and `named` are the others in the order in which they were put in. -/
structure InPropertyOrder (entries indexed named : Bindings Value) : Prop where
  perm : (indexed ++ named).Perm entries
  ascending : ∃ indices : List Nat, indexed.map Prod.fst = indices.map Nat.repr ∧
    indices.Pairwise (· < ·) ∧ ∀ n ∈ indices, n < 2 ^ 32 - 1
  inserted : named.Sublist entries
  other : ∀ entry ∈ named, ∀ n < 2 ^ 32 - 1, entry.1 ≠ Nat.repr n

/-- The index that the name of an entry writes. -/
def entryIndex (entry : String × Value) : Nat := (indexOfKey? entry.1).getD 0

theorem propertyOrder_eq (entries : Bindings Value) :
    propertyOrder entries =
      sortBy (fun a b => entryIndex a ≤ entryIndex b)
          (entries.filter fun entry => (indexOfKey? entry.1).isSome) ++
        entries.filter fun entry => !(indexOfKey? entry.1).isSome := by
  rw [propertyOrder, List.partition_eq_filter_filter]
  rfl

/-- Entries with different names that all write indices are put in strictly ascending order. -/
theorem exists_indices (hkeys : (entries.map Prod.fst).Nodup)
    (h : ∀ entry ∈ entries, (indexOfKey? entry.1).isSome = true) :
    ∃ indices : List Nat,
      (sortBy (fun a b => entryIndex a ≤ entryIndex b) entries).map Prod.fst =
        indices.map Nat.repr ∧
      indices.Pairwise (· < ·) ∧ ∀ n ∈ indices, n < 2 ^ 32 - 1 := by
  have hperm := sortBy_perm (fun a b => decide (entryIndex a ≤ entryIndex b)) entries
  generalize hsorted :
    sortBy (fun a b => decide (entryIndex a ≤ entryIndex b)) entries = sorted at hperm
  have hindex : ∀ entry ∈ sorted,
      entryIndex entry < 2 ^ 32 - 1 ∧ entry.1 = Nat.repr (entryIndex entry) := by
    intro entry hentry
    obtain ⟨n, hn⟩ := Option.isSome_iff_exists.mp (h entry (hperm.mem_iff.mp hentry))
    rw [entryIndex, hn]
    exact indexOfKey?_eq_some_iff.mp hn
  have hnames : sorted.map Prod.fst = (sorted.map entryIndex).map Nat.repr := by
    rw [List.map_map]
    exact List.map_congr_left fun entry hentry => (hindex entry hentry).2
  -- different names write different indices
  have hdistinct : (sorted.map entryIndex).Nodup := by
    refine List.Nodup.of_map Nat.repr ?_
    rw [← hnames]
    exact (hperm.map Prod.fst).nodup_iff.mpr hkeys
  have hascending : (sorted.map entryIndex).Pairwise (· ≤ ·) := by
    rw [List.pairwise_map, ← hsorted]
    refine (pairwise_sortBy ?_ ?_ entries).imp of_decide_eq_true
    · simp only [decide_eq_true_iff]
      exact fun _ _ _ => Nat.le_trans
    · simp only [Bool.or_eq_true, decide_eq_true_iff]
      exact fun _ _ => Nat.le_total _ _
  refine ⟨sorted.map entryIndex, hnames, ?_, ?_⟩
  · exact hascending.imp₂ (fun _ _ => Nat.lt_of_le_of_ne) hdistinct
  · intro n hn
    obtain ⟨entry, hentry, rfl⟩ := List.mem_map.mp hn
    exact (hindex entry hentry).1

theorem exists_inPropertyOrder (hkeys : (entries.map Prod.fst).Nodup) :
    ∃ indexed named, propertyOrder entries = indexed ++ named ∧
      InPropertyOrder entries indexed named := by
  refine ⟨_, _, propertyOrder_eq entries, ?_, ?_, List.filter_sublist, ?_⟩
  · exact ((sortBy_perm _ _).append_right _).trans (List.filter_append_perm _ entries)
  · refine exists_indices (hkeys.sublist (List.filter_sublist.map Prod.fst)) fun entry hentry => ?_
    exact (List.mem_filter.mp hentry).2
  · intro entry hentry n hn hname
    have hindex := isSome_indexOfKey?_iff.mpr ⟨n, hn, hname⟩
    have hother := (List.mem_filter.mp hentry).2
    rw [hindex] at hother
    cases hother

/-- `Enumerates v order`: these are the keys and values of `v`, each of them once, in the order in
which they are visited. -/
inductive Enumerates : Value → List (Value × Value) → Prop
  | array {id : Identity} {items : List Value} {order : List (Value × Value)} :
      (∀ i : Nat, order[i]? = items[i]?.map fun item => (.ofNat i, item)) →
      Enumerates (.array id items) order
  | object {id : Identity} {entries indexed named : Bindings Value} :
      InPropertyOrder entries indexed named →
      Enumerates (.object id entries) ((indexed ++ named).map fun (key, item) => (.text key, item))
  | other {v : Value} : (∀ id items, v ≠ .array id items) → (∀ id entries, v ≠ .object id entries) →
      Enumerates v []

theorem enumerates_entries {v : Value}
    (hkeys : ∀ id entries, v = .object id entries → (entries.map Prod.fst).Nodup) :
    Enumerates v v.entries := by
  cases v with
  | array id items =>
    refine .array fun i => ?_
    simp [Value.entries, List.getElem?_zipIdx, Option.map_map, Function.comp_def]
  | object id entries =>
    obtain ⟨indexed, named, horder, hparts⟩ := exists_inPropertyOrder (hkeys id entries rfl)
    rw [Value.entries, horder]
    exact .object hparts
  | _ => exact .other nofun nofun

/-! ### Visits -/

/-- `Passes f s calls s'`: from the state `s` the function is handed the entries of `calls` one after
the other and has no answer for any of them; the state is `s'` then. -/
inductive Passes (f : Value → Value → StateM σ (Option β)) : σ → List (Value × Value) → σ → Prop
  | nil {s : σ} : Passes f s [] s
  | cons {s s' s'' : σ} {key item : Value} {calls : List (Value × Value)} :
      (f key item).run s = (none, s') → Passes f s' calls s'' →
      Passes f s ((key, item) :: calls) s''

/-- `Visits f s order answer s'`: from the state `s` the function is handed the entries of `order`
one after the other, all of them or up to and with the first for which it has an answer. -/
inductive Visits (f : Value → Value → StateM σ (Option β)) :
    σ → List (Value × Value) → Option β → σ → Prop
  | through {s s' : σ} {order : List (Value × Value)} :
      Passes f s order s' → Visits f s order none s'
  | stopped {s s' s'' : σ} {before after : List (Value × Value)} {key item : Value} {answer : β} :
      Passes f s before s' → (f key item).run s' = (some answer, s'') →
      Visits f s (before ++ (key, item) :: after) (some answer) s''

variable {f : Value → Value → StateM σ (Option β)} {s s' : σ} {order : List (Value × Value)}
  {key item : Value} {answer : Option β}

theorem visitEntries_cons_none (h : (f key item).run s = (none, s')) :
    (visitEntries f ((key, item) :: order)).run s = (visitEntries f order).run s' := by
  rw [visitEntries, StateT.run_bind, h]
  rfl

theorem visitEntries_cons_some {found : β} (h : (f key item).run s = (some found, s')) :
    (visitEntries f ((key, item) :: order)).run s = (some found, s') := by
  rw [visitEntries, StateT.run_bind, h]
  rfl

/-- One more entry for which there is no answer. -/
theorem Visits.cons {s'' : σ} (hcall : (f key item).run s = (none, s'))
    (h : Visits f s' order answer s'') : Visits f s ((key, item) :: order) answer s'' := by
  cases h with
  | through hpasses => exact .through (.cons hcall hpasses)
  | stopped hbefore hlast => exact .stopped (.cons hcall hbefore) hlast

theorem visits_visitEntries (f : Value → Value → StateM σ (Option β)) (order : List (Value × Value))
    (s : σ) :
    Visits f s order ((visitEntries f order).run s).1 ((visitEntries f order).run s).2 := by
  induction order generalizing s with
  | nil => exact .through .nil
  | cons entry order ih =>
    obtain ⟨key, item⟩ := entry
    rcases hcall : (f key item).run s with ⟨_ | found, s'⟩
    · rw [visitEntries_cons_none hcall]
      exact (ih s').cons hcall
    · -- the first entry has an answer, so no entry was passed before
      rw [visitEntries_cons_some hcall]
      show Visits f s ([] ++ (key, item) :: order) _ _
      exact .stopped .nil hcall

theorem Passes.visitEntries {calls : List (Value × Value)} (h : Passes f s calls s') :
    (visitEntries f (calls ++ order)).run s = (visitEntries f order).run s' := by
  induction h with
  | nil => rfl
  | cons hcall _ ih =>
    rw [List.cons_append, visitEntries_cons_none hcall, ih]

/-- What a visit does is what comes of it. -/
theorem visitEntries_eq_iff :
    (visitEntries f order).run s = (answer, s') ↔ Visits f s order answer s' := by
  constructor
  · intro h
    have hvisits := visits_visitEntries f order s
    rwa [h] at hvisits
  · intro h
    cases h with
    | through hpasses =>
      rw [← List.append_nil order, hpasses.visitEntries]
      rfl
    | stopped hbefore hlast => rw [hbefore.visitEntries, visitEntries_cons_some hlast]

/-! ### Rounds that can fail -/

/-- A function that can fail, as one that does not: a fault is an answer. -/
def answering (f : Value → Value → EStateM ε σ (Option β)) (key item : Value) :
    StateM σ (Option (Except ε β)) := fun s =>
  match f key item s with
  | .ok answer s => (answer.map .ok, s)
  | .error fault s => (some (.error fault), s)

theorem run_answering (f : Value → Value → EStateM ε σ (Option β)) (key item : Value) (s : σ) :
    (answering f key item).run s =
      match f key item s with
      | .ok answer s => (answer.map .ok, s)
      | .error fault s => (some (.error fault), s) :=
  rfl

/-- What comes of a visit in which a fault was an answer. -/
def outcomeOf : Option (Except ε β) × σ → EStateM.Result ε σ (Option β)
  | (none, s) => .ok none s
  | (some (.ok answer), s) => .ok (some answer) s
  | (some (.error fault), s) => .error fault s

theorem visitEntries_answering (f : Value → Value → EStateM ε σ (Option β))
    (order : List (Value × Value)) (s : σ) :
    visitEntries f order s = outcomeOf ((visitEntries (answering f) order).run s) := by
  induction order generalizing s with
  | nil => rfl
  | cons entry order ih =>
    obtain ⟨key, item⟩ := entry
    have hstep : visitEntries f ((key, item) :: order) s =
        match f key item s with
        | .ok none s => visitEntries f order s
        | .ok (some answer) s => .ok (some answer) s
        | .error fault s => .error fault s := by
      rw [visitEntries]
      show EStateM.bind _ _ s = _
      rw [EStateM.bind]
      rcases f key item s with ⟨_ | found, s'⟩ | ⟨fault, s'⟩ <;> rfl
    rw [hstep]
    -- a round goes on, ends the loop or fails
    rcases hcall : f key item s with ⟨_ | found, s'⟩ | ⟨fault, s'⟩
    · have hnone : (answering f key item).run s = (none, s') := by
        rw [run_answering, hcall]
        rfl
      rw [visitEntries_cons_none hnone]
      exact ih s'
    · have hsome : (answering f key item).run s = (some (.ok found), s') := by
        rw [run_answering, hcall]
        rfl
      rw [visitEntries_cons_some hsome]
      rfl
    · have hfault : (answering f key item).run s = (some (.error fault), s') := by
        rw [run_answering, hcall]
      rw [visitEntries_cons_some hfault]
      rfl

/-- **A loop visits every entry of a value once, in the order of the properties, up to and with the first
entry that ends it.** -/
theorem visitEntries_enumerates {v : Value}
    (hkeys : ∀ id entries, v = .object id entries → (entries.map Prod.fst).Nodup) :
    Enumerates v v.entries ∧
    (∀ (σ β : Type) (f : Value → Value → StateM σ (Option β)) (s s' : σ) (answer : Option β),
      (visitEntries f v.entries).run s = (answer, s') ↔ Visits f s v.entries answer s') ∧
    ∀ (ε σ β : Type) (f : Value → Value → EStateM ε σ (Option β)) (s : σ),
      visitEntries f v.entries s = outcomeOf ((visitEntries (answering f) v.entries).run s) :=
  ⟨enumerates_entries hkeys, fun _ _ _ _ _ _ => visitEntries_eq_iff,
    fun _ _ _ f s => visitEntries_answering f v.entries s⟩

/-- An object with names that only look like indices, and a function that stops at the third entry. -/
theorem visitEntries_enumerates_mixed :
    let entries : Bindings Value :=
      [("z", .null), ("10", .bool true), ("4294967295", .null), ("2", .undefined), ("01", .null)]
    let v : Value := .object (.given 0) entries
    let f : Value → Value → StateM (List Value) (Option Nat) := fun key _ => do
      modify (· ++ [key])
      return if (← get).length = 3 then some 3 else none
    (entries.map Prod.fst).Nodup ∧
    v.entries = [(.text "2", .undefined), (.text "10", .bool true), (.text "z", .null),
      (.text "4294967295", .null), (.text "01", .null)] ∧
    Enumerates v v.entries ∧ Visits f [] v.entries (some 3) [.text "2", .text "10", .text "z"] := by
  intro entries v f
  have hkeys : (entries.map Prod.fst).Nodup := by decide
  have hdistinct : ∀ id es, v = .object id es → (es.map Prod.fst).Nodup := by
    intro id es hv
    rwa [← (Value.object.inj hv).2]
  obtain ⟨horder, hvisits, -⟩ := visitEntries_enumerates hdistinct
  exact ⟨hkeys, rfl, horder, (hvisits _ _ f _ _ _).mp rfl⟩

end Stencil
