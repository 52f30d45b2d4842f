/-
Stencil/Order.lean

Putting a list in order, one element after the other.  Elements of which neither
comes first stay in the order they had.
-/

namespace Stencil

variable {α : Type}

/-- Puts an element into an ordered list, before the first that may come after it. -/
def insertBy (le : α → α → Bool) (a : α) : List α → List α
  | [] => [a]
  | b :: bs => if le a b then a :: b :: bs else b :: insertBy le a bs

/-- The list in the order of `le`. -/
def sortBy (le : α → α → Bool) : List α → List α
  | [] => []
  | a :: as => insertBy le a (sortBy le as)

theorem insertBy_perm (le : α → α → Bool) (a : α) (as : List α) :
    (insertBy le a as).Perm (a :: as) := by
  induction as with
  | nil => exact .refl _
  | cons b bs ih =>
    unfold insertBy
    split
    · exact .refl _
    · exact (ih.cons b).trans (.swap a b bs)

/-- Ordering a list neither drops nor repeats anything. -/
theorem sortBy_perm (le : α → α → Bool) (as : List α) : (sortBy le as).Perm as := by
  induction as with
  | nil => exact .refl _
  | cons a as ih => exact (insertBy_perm le a _).trans (ih.cons a)

/-- An element is put where the list stays ordered. -/
theorem pairwise_insertBy {le : α → α → Bool} (htrans : ∀ a b c, le a b → le b c → le a c)
    (htotal : ∀ a b, le a b || le b a) (a : α) {as : List α} (h : as.Pairwise fun b c => le b c) :
    (insertBy le a as).Pairwise fun b c => le b c := by
  induction as with
  | nil => exact List.pairwise_singleton _ _
  | cons b bs ih =>
    obtain ⟨hb, hbs⟩ := List.pairwise_cons.mp h
    unfold insertBy
    split
    · next hab =>
      refine List.pairwise_cons.mpr ⟨fun c hc => ?_, h⟩
      rcases List.mem_cons.mp hc with rfl | hc
      · exact hab
      · exact htrans a b c hab (hb c hc)
    · next hab =>
      have hba : le b a = true := by
        have hor := htotal a b
        rwa [Bool.eq_false_iff.mpr hab, Bool.false_or] at hor
      refine List.pairwise_cons.mpr ⟨fun c hc => ?_, ih hbs⟩
      rcases List.mem_cons.mp ((insertBy_perm le a bs).mem_iff.mp hc) with rfl | hc
      · exact hba
      · exact hb c hc

/-- Of two elements of the ordered list the earlier one may come before the later one. -/
theorem pairwise_sortBy {le : α → α → Bool} (htrans : ∀ a b c, le a b → le b c → le a c)
    (htotal : ∀ a b, le a b || le b a) (as : List α) :
    (sortBy le as).Pairwise fun a b => le a b := by
  induction as with
  | nil => exact .nil
  | cons a as ih => exact pairwise_insertBy htrans htotal a ih

end Stencil
