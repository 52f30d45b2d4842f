/-
Stencil/Proofs/Parts.lean

What expressions and documents are made of.  `Expression.parts` lists an expression
with everything inside of it; a name is mentioned by a document if one of the
expressions of its marks has it as an identifier (`namesIn`).  Names that are
assigned to or declared, keys, properties and the items of loops are no mentions.
-/
import Stencil.Proofs.Listing

namespace Stencil

mutual

/-- An expression and all that it is made of. -/
def Expression.parts : Expression → List Expression
  | .literal span value => [.literal span value]
  | .identifier span name => [.identifier span name]
  | .array span items => .array span items :: partsOfAll items
  | .object span entries => .object span entries :: partsOfEntries entries
  | .member span object property => .member span object property :: object.parts
  | .index span object index => .index span object index :: (object.parts ++ index.parts)
  | .call span callee arguments =>
    .call span callee arguments :: (callee.parts ++ partsOfAll arguments)
  | .unary span operator operand => .unary span operator operand :: operand.parts
  | .binary span operator left right =>
    .binary span operator left right :: (left.parts ++ right.parts)
  | .conditional span condition consequent alternative =>
    .conditional span condition consequent alternative ::
      (condition.parts ++ (consequent.parts ++ alternative.parts))
  | .assign span name value => .assign span name value :: value.parts

/-- The parts of some expressions. -/
def partsOfAll : List Expression → List Expression
  | [] => []
  | e :: es => e.parts ++ partsOfAll es

/-- The parts of the values of some entries. -/
def partsOfEntries : List (String × Expression) → List Expression
  | [] => []
  | (_, e) :: entries => e.parts ++ partsOfEntries entries

end

theorem Expression.self_mem_parts (e : Expression) : e ∈ e.parts := by
  cases e <;> simp [Expression.parts]

theorem mem_partsOfAll {part : Expression} {es : List Expression} :
    part ∈ partsOfAll es ↔ ∃ e ∈ es, part ∈ e.parts := by
  induction es with
  | nil => simp [partsOfAll]
  | cons e es ih => simp [partsOfAll, ih]

theorem mem_partsOfEntries {part : Expression} {entries : List (String × Expression)} :
    part ∈ partsOfEntries entries ↔ ∃ entry ∈ entries, part ∈ entry.2.parts := by
  induction entries with
  | nil => simp [partsOfEntries]
  | cons entry entries ih => simp [partsOfEntries, ih]

/-- The name that an expression is, if it is one. -/
def Expression.name? : Expression → Option String
  | .identifier _ name => some name
  | _ => none

/-- The names that occur in an expression as identifiers. -/
def Expression.names (e : Expression) : List String := e.parts.filterMap Expression.name?

/-- The expressions of a mark. -/
def Mark.expressions : Mark → List Expression
  | .output _ value | .evaluate value => [value]
  | .declare _ value => value.toList
  | .run _ arguments _ => arguments
  | .ifThen condition | .elseIf condition => [condition]
  | .forEach _ collection => [collection]
  | _ => []

/-- The names that occur in some nodes as identifiers. -/
def namesIn (nodes : List Node) : List String :=
  (marksOf nodes).flatMap fun mark => mark.expressions.flatMap Expression.names

theorem mem_namesIn {nodes : List Node} {mark : Mark} {e : Expression} {span : Span} {name : String}
    (hmark : mark ∈ marksOf nodes) (he : e ∈ mark.expressions)
    (hpart : .identifier span name ∈ e.parts) : name ∈ namesIn nodes := by
  refine List.mem_flatMap.mpr ⟨mark, hmark, List.mem_flatMap.mpr ⟨e, he, ?_⟩⟩
  exact List.mem_filterMap.mpr ⟨_, hpart, rfl⟩

/-! ### Guards -/

mutual

/-- The guards for sub-templates in a node, in document order, each with whether it stands inside of a
definition; `inner` if the node does. -/
def Node.guards (inner : Bool) : Node → List Bool
  | .dispatch => [inner]
  | .choose branches otherwise => guardsInBranches inner branches ++ guardsIn inner otherwise
  | .forEach _ _ body otherwise => guardsIn inner body ++ guardsIn inner otherwise
  | .define _ _ body => guardsIn true body
  | _ => []

/-- The guards in some nodes. -/
def guardsIn (inner : Bool) : List Node → List Bool
  | [] => []
  | node :: nodes => node.guards inner ++ guardsIn inner nodes

/-- The guards in the bodies of some branches. -/
def guardsInBranches (inner : Bool) : List Branch → List Bool
  | [] => []
  | .mk _ body :: branches => guardsIn inner body ++ guardsInBranches inner branches

end

end Stencil
