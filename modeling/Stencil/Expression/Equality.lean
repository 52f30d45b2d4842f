/-
Stencil/Expression/Equality.lean

Expressions, places included, can be told apart: `Expression.beq` compares two of
them and is proved to decide equality.
-/
import Stencil.Expression

namespace Stencil

mutual

/-- Whether two expressions are the same, places included. -/
def Expression.beq : Expression → Expression → Bool
  | .literal s a, .literal t b => s = t && a = b
  | .identifier s a, .identifier t b => s = t && a = b
  | .array s a, .array t b => s = t && Expression.beqAll a b
  | .object s a, .object t b => s = t && Expression.beqEntries a b
  | .member s a p, .member t b q => s = t && a.beq b && p = q
  | .index s a i, .index t b j => s = t && a.beq b && i.beq j
  | .call s a x, .call t b y => s = t && a.beq b && Expression.beqAll x y
  | .unary s o a, .unary t p b => s = t && o = p && a.beq b
  | .binary s o a x, .binary t p b y => s = t && o = p && a.beq b && x.beq y
  | .conditional s a x u, .conditional t b y v => s = t && a.beq b && x.beq y && u.beq v
  | .assign s n a, .assign t m b => s = t && n = m && a.beq b
  | _, _ => false

/-- Whether two lists of expressions are the same. -/
def Expression.beqAll : List Expression → List Expression → Bool
  | [], [] => true
  | a :: as, b :: bs => a.beq b && Expression.beqAll as bs
  | _, _ => false

/-- Whether two lists of entries are the same. -/
def Expression.beqEntries : List (String × Expression) → List (String × Expression) → Bool
  | [], [] => true
  | (k, a) :: as, (l, b) :: bs => k = l && a.beq b && Expression.beqEntries as bs
  | _, _ => false

end

mutual

theorem Expression.beq_iff : (a b : Expression) → (a.beq b = true ↔ a = b)
  | .literal .., b => by cases b <;> simp [Expression.beq]
  | .identifier .., b => by cases b <;> simp [Expression.beq]
  | .array _ items, b => by
    cases b <;> simp [Expression.beq]
    rw [Expression.beqAll_iff items]
    simp
  | .object _ entries, b => by
    cases b <;> simp [Expression.beq]
    rw [Expression.beqEntries_iff entries]
    simp
  | .member _ o _, b => by
    cases b <;> simp [Expression.beq, Expression.beq_iff o, and_assoc]
  | .index _ o i, b => by
    cases b <;> simp [Expression.beq, Expression.beq_iff o, Expression.beq_iff i, and_assoc]
  | .call _ callee arguments, b => by
    cases b <;>
      simp [Expression.beq, Expression.beq_iff callee, Expression.beqAll_iff arguments, and_assoc]
  | .unary _ _ operand, b => by
    cases b <;> simp [Expression.beq, Expression.beq_iff operand, and_assoc]
  | .binary _ _ left right, b => by
    cases b <;> simp [Expression.beq, Expression.beq_iff left, Expression.beq_iff right, and_assoc]
  | .conditional _ condition consequent alternative, b => by
    cases b <;>
      simp [Expression.beq, Expression.beq_iff condition, Expression.beq_iff consequent,
        Expression.beq_iff alternative, and_assoc]
  | .assign _ _ value, b => by
    cases b <;> simp [Expression.beq, Expression.beq_iff value, and_assoc]

theorem Expression.beqAll_iff :
    (as bs : List Expression) → (Expression.beqAll as bs = true ↔ as = bs)
  | [], bs => by cases bs <;> simp [Expression.beqAll]
  | a :: as, bs => by
    cases bs <;> simp [Expression.beqAll, Expression.beq_iff a, Expression.beqAll_iff as]

theorem Expression.beqEntries_iff :
    (as bs : List (String × Expression)) → (Expression.beqEntries as bs = true ↔ as = bs)
  | [], bs => by cases bs <;> simp [Expression.beqEntries]
  | (k, a) :: as, bs => by
    rcases bs with _ | ⟨⟨l, b⟩, bs⟩ <;>
      simp [Expression.beqEntries, Expression.beq_iff a, Expression.beqEntries_iff as, and_assoc]

end

instance : DecidableEq Expression := fun a b => decidable_of_iff _ (Expression.beq_iff a b)

deriving instance DecidableEq for Statement

end Stencil
