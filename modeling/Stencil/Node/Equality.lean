/-
Stencil/Node/Equality.lean

Nodes can be told apart, down to the places of their expressions: `Node.beq`
compares two of them and is proved to decide equality.  Two templates are equal
if their nodes and the settings they took are.
-/
import Stencil.Expression.Equality
import Stencil.Template

namespace Stencil

mutual

/-- Whether two nodes are the same. -/
def Node.beq : Node → Node → Bool
  | .text a, .text b => a = b
  | .output f a, .output g b => f = g && a = b
  | .declare n a, .declare m b => n = m && a = b
  | .evaluate a, .evaluate b => a = b
  | .choose a x, .choose b y => Node.beqBranches a b && Node.beqAll x y
  | .forEach n c a x, .forEach m d b y => n = m && c = d && Node.beqAll a b && Node.beqAll x y
  | .leave, .leave => true
  | .define n p a, .define m q b => n = m && p = q && Node.beqAll a b
  | .run n a s, .run m b t => n = m && a = b && s = t
  | .dispatch, .dispatch => true
  | _, _ => false

/-- Whether two lists of nodes are the same. -/
def Node.beqAll : List Node → List Node → Bool
  | [], [] => true
  | a :: as, b :: bs => a.beq b && Node.beqAll as bs
  | _, _ => false

/-- Whether two lists of branches are the same. -/
def Node.beqBranches : List Branch → List Branch → Bool
  | [], [] => true
  | .mk c a :: as, .mk d b :: bs => c = d && Node.beqAll a b && Node.beqBranches as bs
  | _, _ => false

end

mutual

theorem Node.beq_iff : (a b : Node) → (a.beq b = true ↔ a = b)
  | .text .., b => by cases b <;> simp [Node.beq]
  | .output .., b => by cases b <;> simp [Node.beq]
  | .declare .., b => by cases b <;> simp [Node.beq]
  | .evaluate .., b => by cases b <;> simp [Node.beq]
  | .choose branches otherwise, b => by
    cases b <;> simp [Node.beq, Node.beqBranches_iff branches, Node.beqAll_iff otherwise]
  | .forEach _ _ body otherwise, b => by
    cases b <;> simp [Node.beq, Node.beqAll_iff body, Node.beqAll_iff otherwise, and_assoc]
  | .leave, b => by cases b <;> simp [Node.beq]
  | .define _ _ body, b => by cases b <;> simp [Node.beq, Node.beqAll_iff body, and_assoc]
  | .run .., b => by cases b <;> simp [Node.beq, and_assoc]
  | .dispatch, b => by cases b <;> simp [Node.beq]

theorem Node.beqAll_iff : (as bs : List Node) → (Node.beqAll as bs = true ↔ as = bs)
  | [], bs => by cases bs <;> simp [Node.beqAll]
  | a :: as, bs => by cases bs <;> simp [Node.beqAll, Node.beq_iff a, Node.beqAll_iff as]

theorem Node.beqBranches_iff :
    (as bs : List Branch) → (Node.beqBranches as bs = true ↔ as = bs)
  | [], bs => by cases bs <;> simp [Node.beqBranches]
  | .mk c a :: as, bs => by
    rcases bs with _ | ⟨⟨d, b⟩, bs⟩ <;>
      simp [Node.beqBranches, Node.beqAll_iff a, Node.beqBranches_iff as]

end

instance : DecidableEq Node := fun a b => decidable_of_iff _ (Node.beq_iff a b)

deriving instance DecidableEq for Template

end Stencil
