/-
Stencil/Node.lean

The blocks of a compiled template, in document order.
-/
import Stencil.Directive

namespace Stencil

mutual

/-- A node of a compiled template. -/
inductive Node where
  | text (text : String)
  | output (form : OutputForm) (value : Expression)
  | declare (name : String) (value : Option Expression)
  | evaluate (value : Expression)
  /-- The first branch whose condition holds, or what is left if none does. -/
  | choose (branches : List Branch) (otherwise : List Node)
  | forEach (item : String) (collection : Expression) (body otherwise : List Node)
  /-- Ends the nearest item of a loop, or the body of a sub-template. -/
  | leave
  | define (name : String) (parameters : List String) (body : List Node)
  | run (name : String) (arguments : List Expression) (span : Span)
  /-- Stands behind the last definition.  Where one sub-template was asked for, it throws away the
  output, runs the sub-template and ends. -/
  | dispatch

/-- A condition and what is rendered where it holds. -/
inductive Branch where
  | mk (condition : Expression) (body : List Node)

end

/-- The node of a statement. -/
def Node.ofStatement : Statement → Node
  | .declare name value => .declare name value
  | .evaluate value => .evaluate value

mutual

/-- The names of the definitions in a list of nodes, in document order. -/
def Node.definedNames : Node → List String
  | .define name _ body => name :: definedNamesOf body
  | .choose branches otherwise => definedNamesIn branches ++ definedNamesOf otherwise
  | .forEach _ _ body otherwise => definedNamesOf body ++ definedNamesOf otherwise
  | _ => []

/-- The names of the definitions in a list of nodes. -/
def definedNamesOf : List Node → List String
  | [] => []
  | node :: nodes => node.definedNames ++ definedNamesOf nodes

/-- The names of the definitions in a list of branches. -/
def definedNamesIn : List Branch → List String
  | [] => []
  | .mk _ body :: branches => definedNamesOf body ++ definedNamesIn branches

end

end Stencil
