/-
Stencil/Proofs/EqualityLaws.lean

The laws of the three comparisons.  Values are nested, so what holds of a value is
proved from what holds of its children (`induction`), and what is asked of a value is
asked of everything in it (`Everywhere`): that the names of an object differ, that every
number is one, that what an array or an object holds is what its identity stands for.

The main result, `equalities_cohere`: the strict and the loose comparison do not depend
on the order of their sides, and the strict one is the finer.  The structural one is an
equivalence that knows nothing of the order of entries, and two values that are strictly
equal hold the same.
-/
import Mathlib
import Stencil.Value.Equality

namespace Stencil

/-! ### Doubles -/

/-- The comparison of doubles is an equivalence among those that are numbers. -/
instance floatPartialEquivBEq : PartialEquivBEq Float where
  symm {x y} h := by
    obtain ⟨hx, hy, h⟩ := Float.beq_iff_ne_nan_and_eq.mp h
    refine Float.beq_iff_ne_nan_and_eq.mpr ⟨hy, hx, ?_⟩
    rcases h with h | h | h
    · exact .inl h.symm
    · exact .inr (.inr h.symm)
    · exact .inr (.inl h.symm)
  trans {x y z} hxy hyz := by
    obtain ⟨hx, -, hxy⟩ := Float.beq_iff_ne_nan_and_eq.mp hxy
    obtain ⟨-, hz, hyz⟩ := Float.beq_iff_ne_nan_and_eq.mp hyz
    refine Float.beq_iff_ne_nan_and_eq.mpr ⟨hx, hz, ?_⟩
    rcases hxy with rfl | ⟨rfl, rfl⟩ | ⟨rfl, rfl⟩
    · exact hyz
    · rcases hyz with rfl | ⟨-, rfl⟩ | ⟨-, rfl⟩
      · exact .inr (.inl ⟨rfl, rfl⟩)
      · exact .inr (.inl ⟨rfl, rfl⟩)
      · exact .inl rfl
    · rcases hyz with rfl | ⟨-, rfl⟩ | ⟨-, rfl⟩
      · exact .inr (.inr ⟨rfl, rfl⟩)
      · exact .inl rfl
      · exact .inr (.inr ⟨rfl, rfl⟩)

theorem Number.beq_self {x : Float} (h : Number.isNan x = false) : (x == x) = true := by
  refine Float.beq_iff_ne_nan_and_eq.mpr ?_
  have hne : x ≠ Float.nan := by
    rintro rfl
    exact absurd h (by decide)
  exact ⟨hne, hne, .inl rfl⟩

namespace Value

variable {a b c v w : Value} {id id' : Identity} {items : List Value} {entries : Bindings Value}

/-! ### Nested values -/

/-- The value is neither an array nor an object. -/
def isLeaf : Value → Bool
  | .array .. | .object .. => false
  | _ => true

/-- What an array or an object holds. -/
def children : Value → List Value
  | .array _ items => items
  | .object _ entries => entries.map Prod.snd
  | _ => []

theorem sizeOf_lt_of_mem_children (h : c ∈ v.children) : sizeOf c < sizeOf v := by
  cases v with
  | array id items =>
    have hlt : sizeOf c < sizeOf items := List.sizeOf_lt_of_mem h
    simp only [array.sizeOf_spec]
    omega
  | object id entries =>
    obtain ⟨⟨name, w⟩, hmem, rfl⟩ := List.mem_map.mp h
    have hlt := List.sizeOf_lt_of_mem hmem
    simp only [object.sizeOf_spec, Prod.mk.sizeOf_spec] at hlt ⊢
    omega
  | _ => cases h

/-- What passes from the children of a value to the value holds of all values. -/
theorem induction {P : Value → Prop} (step : ∀ v, (∀ c ∈ v.children, P c) → P v) (v : Value) : P v :=
  step v fun c _ => induction step c
termination_by sizeOf v
decreasing_by exact sizeOf_lt_of_mem_children ‹_›

/-- A property that a value has together with everything in it. -/
inductive Everywhere (P : Value → Prop) : Value → Prop
  | intro {v : Value} (here : P v) (inside : ∀ c ∈ v.children, Everywhere P c) : Everywhere P v

theorem Everywhere.here {P : Value → Prop} : v.Everywhere P → P v
  | .intro here _ => here

theorem Everywhere.child {P : Value → Prop} (hc : c ∈ v.children) : v.Everywhere P → c.Everywhere P
  | .intro _ inside => inside c hc

/-- Every object in the value names each of its entries differently. -/
def Distinct : Value → Prop :=
  Everywhere fun
    | .object _ entries => (entries.map Prod.fst).Nodup
    | _ => True

/-- Every number in the value is one. -/
def NoNan : Value → Prop :=
  Everywhere fun
    | .number x => Number.isNan x = false
    | _ => True

/-- What the arrays and the objects hold, by their identities. -/
structure Heap where
  items : Identity → List Value
  entries : Identity → Bindings Value

/-- Every array and every object in the value holds what is stored under its identity, so that those of one
identity hold the same. -/
def LivesIn (heap : Heap) : Value → Prop :=
  Everywhere fun
    | .array id items => items = heap.items id
    | .object id entries => entries = heap.entries id
    | _ => True

theorem mem_children_of_entry (id : Identity) {name : String} (h : (name, v) ∈ entries) :
    v ∈ (object id entries).children :=
  List.mem_map.mpr ⟨(name, v), h, rfl⟩

/-- The objects that expressions make from distinct values are distinct, whatever names are written. -/
theorem distinct_ofList (id : Identity) {written : List (String × Value)}
    (hwritten : ∀ entry ∈ written, entry.2.Distinct) :
    (object id (Bindings.ofList written)).Distinct := by
  -- binding one name after the other, to begin with none
  have hbound : ∀ entries : Bindings Value, (object id entries).Distinct →
      (object id (written.foldl (fun bound entry => Bindings.put entry.1 entry.2 bound) entries)).Distinct := by
    induction written with
    | nil => exact fun _ h => h
    | cons entry written ih =>
      obtain ⟨hfirst, hrest⟩ := List.forall_mem_cons.mp hwritten
      refine fun entries h => ih hrest _ (.intro (Bindings.nodup_put h.here) fun c hc => ?_)
      obtain ⟨added, hadded, rfl⟩ := List.mem_map.mp hc
      rcases Bindings.mem_put hadded with rfl | hold
      · exact hfirst
      · exact h.child (List.mem_map_of_mem hold)
  exact hbound [] (.intro List.nodup_nil nofun)

/-! ### The strict and the loose comparison -/

theorem strictEquals_comm (a b : Value) : a.strictEquals b = b.strictEquals a := by
  cases a <;> cases b <;> first | rfl | exact BEq.comm

theorem strictEquals_trans (hab : a.strictEquals b = true) (hbc : b.strictEquals c = true) :
    a.strictEquals c = true := by
  cases a <;> cases b <;> first
    | exact hbc
    | exact absurd hab Bool.false_ne_true
    | cases c <;> first
      | exact absurd hbc Bool.false_ne_true
      | exact PartialEquivBEq.trans hab hbc

theorem looseEquals_comm (a b : Value) : a.looseEquals b = b.looseEquals a := by
  cases a <;> cases b <;> first | rfl | exact BEq.comm

theorem looseEquals_of_strictEquals (h : a.strictEquals b = true) : a.looseEquals b = true := by
  cases a <;> cases b <;> try first | exact h | rfl | cases h
  case bool.bool s t =>
    rw [eq_of_beq (show (s == t) = true from h)]
    cases t <;> rfl

/-! ### What holds the same -/

theorem sameItems_iff {others : List Value} :
    sameItems items others = true ↔ items.length = others.length ∧
      ∀ (i : Nat) (a : Value), items[i]? = some a → ∃ b, others[i]? = some b ∧ a.same b = true := by
  induction items generalizing others with
  | nil => cases others <;> simp [sameItems]
  | cons a items ih =>
    cases others with
    | nil => simp [sameItems]
    | cons b others =>
      rw [sameItems, Bool.and_eq_true, ih]
      constructor
      · rintro ⟨hfirst, hlength, hrest⟩
        refine ⟨congrArg (· + 1) hlength, fun i c hc => ?_⟩
        cases i with
        | zero => exact ⟨b, rfl, Option.some.inj hc ▸ hfirst⟩
        | succ i => exact hrest i c hc
      · rintro ⟨hlength, hall⟩
        obtain ⟨_, hb, hfirst⟩ := hall 0 a rfl
        exact ⟨Option.some.inj hb ▸ hfirst, Nat.succ.inj hlength, fun i => hall (i + 1)⟩

theorem sameEntries_cons {others : Bindings Value} (name : String) (a : Value) :
    sameEntries ((name, a) :: entries) others =
      ((others.lookup name).any a.same && sameEntries entries others) := by
  rw [sameEntries]
  cases others.lookup name <;> rfl

theorem sameEntries_iff {others : Bindings Value} :
    sameEntries entries others = true ↔
      ∀ name a, (name, a) ∈ entries → ∃ b, others.lookup name = some b ∧ a.same b = true := by
  induction entries with
  | nil => simp [sameEntries]
  | cons entry entries ih =>
    obtain ⟨name, a⟩ := entry
    have hfirst : (others.lookup name).any a.same = true ↔
        ∃ b, others.lookup name = some b ∧ a.same b = true := by
      cases others.lookup name <;> simp
    rw [sameEntries_cons, Bool.and_eq_true, hfirst, ih]
    constructor
    · rintro ⟨hhere, hrest⟩ other c hmem
      rcases List.mem_cons.mp hmem with heq | hmem
      · cases heq
        exact hhere
      · exact hrest other c hmem
    · intro hall
      exact ⟨hall name a List.mem_cons_self, fun other c hmem =>
        hall other c (List.mem_cons_of_mem _ hmem)⟩

/-- Beside a value that is neither an array nor an object the structural comparison is the strict one. -/
theorem same_eq_strictEquals (ha : a.isLeaf = true) (b : Value) :
    a.same b = a.strictEquals b ∧ b.same a = b.strictEquals a := by
  cases a with
  | array => cases ha
  | object => cases ha
  | _ => cases b <;> exact ⟨rfl, rfl⟩

theorem isLeaf_of_strictEquals (ha : a.isLeaf = true) (h : a.strictEquals b = true) :
    b.isLeaf = true := by
  cases b with
  | array => cases a <;> first | exact h | exact ha
  | object => cases a <;> first | exact h | exact ha
  | _ => rfl

theorem same_symm_of_isLeaf (ha : a.isLeaf = true) (h : a.same b = true) : b.same a = true := by
  obtain ⟨hleft, hright⟩ := same_eq_strictEquals ha b
  rw [hright, strictEquals_comm, ← hleft]
  exact h

theorem same_trans_of_isLeaf (ha : a.isLeaf = true) (hab : a.same b = true) (hbc : b.same c = true) :
    a.same c = true := by
  rw [(same_eq_strictEquals ha b).1] at hab
  rw [(same_eq_strictEquals (isLeaf_of_strictEquals ha hab) c).1] at hbc
  rw [(same_eq_strictEquals ha c).1]
  exact strictEquals_trans hab hbc

theorem array_same_iff :
    (array id items).same b = true ↔ ∃ id' others, b = array id' others ∧
      items.length = others.length ∧
      ∀ (i : Nat) (a : Value), items[i]? = some a → ∃ b, others[i]? = some b ∧ a.same b = true := by
  constructor
  · intro h
    cases b with
    | array id' others => exact ⟨id', others, rfl, sameItems_iff.mp h⟩
    | _ => cases h
  · rintro ⟨id', others, rfl, h⟩
    exact sameItems_iff.mpr h

theorem object_same_iff :
    (object id entries).same b = true ↔ ∃ id' others, b = object id' others ∧
      entries.length = others.length ∧
      ∀ name a, (name, a) ∈ entries → ∃ b, others.lookup name = some b ∧ a.same b = true := by
  constructor
  · intro h
    cases b with
    | object id' others =>
      obtain ⟨hlength, hentries⟩ := (Bool.and_eq_true _ _).mp h
      exact ⟨id', others, rfl, eq_of_beq hlength, sameEntries_iff.mp hentries⟩
    | _ => cases h
  · rintro ⟨id', others, rfl, hlength, hentries⟩
    exact (Bool.and_eq_true _ _).mpr ⟨beq_iff_eq.mpr hlength, sameEntries_iff.mpr hentries⟩

/-! ### An equivalence -/

/-- Where each name of an object is one of another with as many entries, these are all the names that
the other has. -/
theorem names_subset {others : Bindings Value} (hnames : (entries.map Prod.fst).Nodup)
    (hlength : entries.length = others.length)
    (hsubset : entries.map Prod.fst ⊆ others.map Prod.fst) :
    others.map Prod.fst ⊆ entries.map Prod.fst := by
  have hperm := (List.Nodup.subperm hnames hsubset).perm_of_length_le
    (by rw [List.length_map, List.length_map, hlength])
  exact hperm.symm.subset

theorem same_symm (ha : a.Distinct) (hb : b.Distinct) (h : a.same b = true) : b.same a = true := by
  induction a using induction generalizing b with
  | step a ih =>
    cases a with
    | array id items =>
      obtain ⟨id', others, rfl, hlength, hitems⟩ := array_same_iff.mp h
      refine array_same_iff.mpr ⟨id, items, rfl, hlength.symm, fun i b hib => ?_⟩
      have hlt : i < items.length := hlength ▸ (List.getElem?_eq_some_iff.mp hib).1
      have hia := List.getElem?_eq_getElem hlt
      obtain ⟨c, hic, hsame⟩ := hitems i _ hia
      obtain rfl : c = b := Option.some.inj (hic.symm.trans hib)
      have hmem : items[i] ∈ (array id items).children := List.getElem_mem hlt
      have hmem' : c ∈ (array id' others).children := List.mem_of_getElem? hib
      exact ⟨_, hia, ih _ hmem (ha.child hmem) (hb.child hmem') hsame⟩
    | object id entries =>
      obtain ⟨id', others, rfl, hlength, hentries⟩ := object_same_iff.mp h
      refine object_same_iff.mpr ⟨id, entries, rfl, hlength.symm, fun name b hmem => ?_⟩
      -- the names of the one are among those of the other, and as many, so every name of the other is
      -- one of them
      have hsubset : entries.map Prod.fst ⊆ others.map Prod.fst := by
        intro name hname
        obtain ⟨⟨name, a⟩, hentry, rfl⟩ := List.mem_map.mp hname
        obtain ⟨c, hc, -⟩ := hentries _ a hentry
        exact List.mem_map.mpr ⟨(name, c), Bindings.mem_of_lookup hc, rfl⟩
      have hname := names_subset ha.here hlength hsubset (List.mem_map_of_mem hmem)
      obtain ⟨⟨_, a⟩, hentry, rfl⟩ := List.mem_map.mp hname
      obtain ⟨c, hc, hsame⟩ := hentries _ a hentry
      obtain rfl : c = b := Option.some.inj (hc.symm.trans (Bindings.lookup_of_mem hb.here hmem))
      have hchild := mem_children_of_entry id hentry
      have hchild' := mem_children_of_entry id' hmem
      exact ⟨a, Bindings.lookup_of_mem ha.here hentry, ih _ hchild (ha.child hchild) (hb.child hchild') hsame⟩
    | _ => exact same_symm_of_isLeaf rfl h

theorem same_comm (ha : a.Distinct) (hb : b.Distinct) : a.same b = b.same a :=
  Bool.eq_iff_iff.mpr ⟨same_symm ha hb, same_symm hb ha⟩

theorem same_self (hnames : a.Distinct) (hnumbers : a.NoNan) : a.same a = true := by
  induction a using induction with
  | step a ih =>
    have hchild : ∀ c ∈ a.children, c.same c = true := fun c hc =>
      ih c hc (hnames.child hc) (hnumbers.child hc)
    cases a with
    | array id items =>
      refine array_same_iff.mpr ⟨id, items, rfl, rfl, fun i a hia => ?_⟩
      exact ⟨a, hia, hchild a (List.mem_of_getElem? hia)⟩
    | object id entries =>
      refine object_same_iff.mpr ⟨id, entries, rfl, rfl, fun name a hmem => ?_⟩
      exact ⟨a, Bindings.lookup_of_mem hnames.here hmem, hchild a (mem_children_of_entry id hmem)⟩
    | number x => exact Number.beq_self hnumbers.here
    | undefined => rfl
    | null => rfl
    | bool => exact BEq.rfl
    | text => exact BEq.rfl
    | function => exact BEq.rfl

theorem same_trans (hab : a.same b = true) (hbc : b.same c = true) : a.same c = true := by
  induction a using induction generalizing b c with
  | step a ih =>
    cases a with
    | array id items =>
      obtain ⟨id', others, rfl, hlength, hitems⟩ := array_same_iff.mp hab
      obtain ⟨id'', rest, rfl, hlength', hitems'⟩ := array_same_iff.mp hbc
      refine array_same_iff.mpr ⟨id'', rest, rfl, hlength.trans hlength', fun i a hia => ?_⟩
      obtain ⟨b, hib, hsame⟩ := hitems i a hia
      obtain ⟨c, hic, hsame'⟩ := hitems' i b hib
      exact ⟨c, hic, ih a (List.mem_of_getElem? hia) hsame hsame'⟩
    | object id entries =>
      obtain ⟨id', others, rfl, hlength, hentries⟩ := object_same_iff.mp hab
      obtain ⟨id'', rest, rfl, hlength', hentries'⟩ := object_same_iff.mp hbc
      refine object_same_iff.mpr ⟨id'', rest, rfl, hlength.trans hlength', fun name a hmem => ?_⟩
      obtain ⟨b, hb, hsame⟩ := hentries name a hmem
      obtain ⟨c, hc, hsame'⟩ := hentries' name b (Bindings.mem_of_lookup hb)
      exact ⟨c, hc, ih a (mem_children_of_entry id hmem) hsame hsame'⟩
    | _ => exact same_trans_of_isLeaf rfl hab hbc

/-- Values of one identity that live in one heap hold the same. -/
theorem same_of_strictEquals {heap : Heap} (hnames : a.Distinct) (hnumbers : a.NoNan)
    (ha : a.LivesIn heap) (hb : b.LivesIn heap) (h : a.strictEquals b = true) :
    a.same b = true := by
  have hself := same_self hnames hnumbers
  cases a with
  | array id items =>
    cases b with
    | array id' others =>
      obtain rfl : id = id' := eq_of_beq h
      have hitems : items = others := ha.here.trans hb.here.symm
      exact hitems ▸ hself
    | _ => cases h
  | object id entries =>
    cases b with
    | object id' others =>
      obtain rfl : id = id' := eq_of_beq h
      have hentries : entries = others := ha.here.trans hb.here.symm
      exact hentries ▸ hself
    | _ => cases h
  | _ => exact (same_eq_strictEquals rfl b).1.trans h

/-! ### The order of entries -/

/-- The second value is the first with the entries of objects in another order, at any depth.  What
holds something reordered is another array or object, so identities may change. -/
inductive Reordered : Value → Value → Prop
  | refl (v : Value) : Reordered v v
  | trans {u v w : Value} : Reordered u v → Reordered v w → Reordered u w
  | copy (id id' : Identity) (items : List Value) : Reordered (.array id items) (.array id' items)
  | perm (id id' : Identity) {entries others : Bindings Value} :
      entries.Perm others → Reordered (.object id entries) (.object id' others)
  | item (id : Identity) (before after : List Value) {v w : Value} :
      Reordered v w → Reordered (.array id (before ++ v :: after)) (.array id (before ++ w :: after))
  | entry (id : Identity) (before after : Bindings Value) (name : String) {v w : Value} :
      Reordered v w →
        Reordered (.object id (before ++ (name, v) :: after)) (.object id (before ++ (name, w) :: after))

theorem sameItems_congr (h : ∀ b, v.same b = w.same b) (before after others : List Value) :
    sameItems (before ++ v :: after) others = sameItems (before ++ w :: after) others := by
  induction before generalizing others with
  | nil => cases others <;> simp [sameItems, h]
  | cons a before ih => cases others <;> simp [sameItems, ih]

theorem sameEntries_congr (h : ∀ b, v.same b = w.same b) (before after others : Bindings Value)
    (name : String) :
    sameEntries (before ++ (name, v) :: after) others =
      sameEntries (before ++ (name, w) :: after) others := by
  have hsame : v.same = w.same := funext h
  induction before with
  | nil => rw [List.nil_append, List.nil_append, sameEntries_cons, sameEntries_cons, hsame]
  | cons entry before ih => rw [List.cons_append, List.cons_append, sameEntries_cons, sameEntries_cons, ih]

/-- The structural comparison does not see the order of entries in its first side. -/
theorem Reordered.same_eq (h : Reordered v w) (b : Value) : v.same b = w.same b := by
  induction h generalizing b with
  | refl => rfl
  | trans _ _ ih ih' => exact (ih b).trans (ih' b)
  | copy => cases b <;> rfl
  | perm id id' hperm =>
    refine Bool.eq_iff_iff.mpr ?_
    simp only [object_same_iff, hperm.length_eq, hperm.mem_iff]
  | item id before after _ ih =>
    cases b with
    | array id' others => exact sameItems_congr ih before after others
    | _ => rfl
  | @entry id before after name v w _ ih =>
    cases b with
    | object id' others =>
      have hlength : (before ++ (name, v) :: after).length = (before ++ (name, w) :: after).length := by
        rw [List.length_append, List.length_append, List.length_cons, List.length_cons]
      show (_ == _ && _) = (_ == _ && _)
      rw [sameEntries_congr ih, hlength]
    | _ => rfl

theorem Reordered.distinct (h : Reordered v w) (hv : v.Distinct) : w.Distinct := by
  induction h with
  | refl => exact hv
  | trans _ _ ih ih' => exact ih' (ih hv)
  | copy id id' items =>
    exact .intro trivial fun c (hc : c ∈ (array id items).children) => hv.child hc
  | perm id id' hperm =>
    refine .intro ((hperm.map Prod.fst).nodup_iff.mp hv.here) fun c hc => hv.child ?_
    exact (hperm.map Prod.snd).mem_iff.mpr hc
  | @item id before after v w _ ih =>
    have hall : ∀ c ∈ (array id (before ++ v :: after)).children, c.Distinct := fun _ hc => hv.child hc
    rw [children, List.forall_mem_append, List.forall_mem_cons] at hall
    obtain ⟨hbefore, hhere, hafter⟩ := hall
    refine .intro trivial (List.forall_mem_append.mpr ⟨hbefore, List.forall_mem_cons.mpr ?_⟩)
    exact ⟨ih hhere, hafter⟩
  | @entry id before after name v w _ ih =>
    have hall : ∀ c ∈ (object id (before ++ (name, v) :: after)).children, c.Distinct :=
      fun _ hc => hv.child hc
    rw [children, List.map_append, List.map_cons, List.forall_mem_append, List.forall_mem_cons] at hall
    obtain ⟨hbefore, hhere, hafter⟩ := hall
    have hnames : ((before ++ (name, w) :: after).map Prod.fst).Nodup := by
      have hold : ((before ++ (name, v) :: after).map Prod.fst).Nodup := hv.here
      rw [List.map_append, List.map_cons] at hold ⊢
      exact hold
    refine .intro hnames ?_
    rw [children, List.map_append, List.map_cons]
    exact List.forall_mem_append.mpr ⟨hbefore, List.forall_mem_cons.mpr ⟨ih hhere, hafter⟩⟩

/-! ### All laws -/

/-- **The comparisons cohere.**  The strict and the loose comparison are symmetric, and what is strictly
equal is loosely equal.  The structural one is symmetric, does not depend on the order of entries at any
depth, is reflexive where every number is one, and transitive; and values of one heap that are strictly
equal hold the same where every number is one. -/
theorem equalities_cohere :
    (∀ a b : Value, a.looseEquals b = b.looseEquals a) ∧
    (∀ a b : Value, a.strictEquals b = b.strictEquals a) ∧
    (∀ a b : Value, a.strictEquals b = true → a.looseEquals b = true) ∧
    (∀ a b : Value, a.Distinct → b.Distinct → a.same b = b.same a) ∧
    (∀ a a' b : Value, a.Distinct → b.Distinct → Reordered a a' →
      a'.same b = a.same b ∧ b.same a' = b.same a) ∧
    (∀ a : Value, a.Distinct → a.NoNan → a.same a = true) ∧
    (∀ a b c : Value, a.same b = true → b.same c = true → a.same c = true) ∧
    (∀ (heap : Heap) (a b : Value), a.Distinct → a.NoNan → a.LivesIn heap → b.LivesIn heap →
      a.strictEquals b = true → a.same b = true) := by
  refine ⟨looseEquals_comm, strictEquals_comm, fun _ _ => looseEquals_of_strictEquals,
    fun _ _ => same_comm, fun a a' b ha hb h => ?_, fun _ => same_self, fun _ _ _ => same_trans,
    fun _ _ _ => same_of_strictEquals⟩
  have hleft := h.same_eq b
  refine ⟨hleft.symm, ?_⟩
  rw [same_comm hb (h.distinct ha), ← hleft, same_comm ha hb]

/-- An array that stands twice in an object which stands twice in another array, beside the same with the
entries of one of the two objects turned round. -/
theorem equalities_cohere_shared :
    let shared := array (.made 0) [text "x", ofNat 1]
    let page := object (.made 1) (Bindings.ofList [("left", shared), ("right", shared)])
    let turned := object (.made 2) (Bindings.ofList [("right", shared), ("left", shared)])
    let pages := array (.made 3) [page, page]
    let mixed := array (.made 4) [turned, page]
    let heap : Heap :=
      { items := fun id => if id = .made 0 then [text "x", ofNat 1] else [page, page]
        entries := fun _ => Bindings.ofList [("left", shared), ("right", shared)] }
    pages.Distinct ∧ pages.NoNan ∧ pages.LivesIn heap ∧ Reordered pages mixed ∧
      pages.strictEquals pages = true ∧ pages.strictEquals mixed = false ∧
      pages.same pages = true ∧ mixed.same pages = true ∧ pages.same mixed = true ∧
      mixed.same mixed = true := by
  intro shared page turned pages mixed heap
  obtain ⟨-, -, -, -, hreordered, hself, htrans, hheap⟩ := equalities_cohere
  have hpair {P : Value → Prop} {v w : Value} (hv : P v) (hw : P w) : ∀ c ∈ [v, w], P c :=
    List.forall_mem_cons.mpr ⟨hv, List.forall_mem_singleton.mpr hw⟩
  have hshared {P : Value → Prop} (here : P shared) (htext : P (text "x")) (hone : P (ofNat 1)) :
      shared.Everywhere P :=
    .intro here (hpair (.intro htext nofun) (.intro hone nofun))
  have hpages {P : Value → Prop} (here : P pages) (hpage : page.Everywhere P) : pages.Everywhere P :=
    .intro here (hpair hpage hpage)
  have hdistinct : pages.Distinct := by
    have hitems : shared.Distinct := hshared trivial trivial trivial
    have hwritten : ∀ entry ∈ [("left", shared), ("right", shared)], entry.2.Distinct :=
      List.forall_mem_cons.mpr ⟨hitems, List.forall_mem_singleton.mpr hitems⟩
    exact hpages trivial (distinct_ofList (.made 1) hwritten)
  have hnumbers : pages.NoNan := by
    have hone : Number.isNan (Number.ofNat 1) = false := by decide
    have hitems : shared.NoNan := hshared trivial trivial hone
    exact hpages trivial (.intro trivial (hpair hitems hitems))
  have hlives : pages.LivesIn heap := by
    have hitems : shared.LivesIn heap := hshared rfl trivial trivial
    exact hpages rfl (.intro rfl (hpair hitems hitems))
  have hturned : Reordered page turned := .perm _ _ (List.Perm.swap _ _ [])
  have hmixed : Reordered pages mixed :=
    .trans (.copy (.made 3) (.made 4) [page, page]) (.item (.made 4) [] [page] hturned)
  have hsame : pages.same pages = true := hheap heap pages pages hdistinct hnumbers hlives hlives rfl
  obtain ⟨hleft, hright⟩ := hreordered pages mixed pages hdistinct hdistinct hmixed
  rw [hsame] at hleft hright
  exact ⟨hdistinct, hnumbers, hlives, hmixed, rfl, rfl, hself pages hdistinct hnumbers, hleft, hright,
    htrans _ _ _ hleft hright⟩

/-- An array that holds what is no number does not hold the same as itself. -/
example : (array (.made 0) [number Number.nan]).same (array (.made 0) [number Number.nan]) = false := by
  decide

end Value

end Stencil
