/-
Stencil/Evaluate.lean

Evaluating expressions.  An evaluation can change bindings and make arrays and
objects; it either answers with a value or stops with a fault, and what it has
changed before a fault stays changed.
-/
import Stencil.Builtin.Method
import Stencil.Expression
import Stencil.Fault
import Stencil.Scope

namespace Stencil

/-- What an evaluation works on. -/
structure Memory where
  scope : Scope
  /-- How many arrays and objects were made so far. -/
  made : Nat := 0

/-- An evaluation that answers with a value of `α`. -/
abbrev Evaluation := EStateM RenderFault Memory

/-- The functions of the host: what the one of a name answers to some arguments on a page with the given
protocol, and how many arrays and objects are made when it has answered. -/
abbrev Host :=
  (name : String) → (arguments : List Value) → (pageProtocol : String) → StateM Nat (Except String Value)

/-- What an evaluation can rely on from outside. -/
structure Services where
  host : Host
  /-- The protocol of the page, colon included. -/
  pageProtocol : String

/-- The identity of an array or object that is made now. -/
def newIdentity : Evaluation Identity :=
  modifyGet fun m => (.made m.made, { m with made := m.made + 1 })

/-- What a name stands for: what it is bound to, or what is built in. -/
def Scope.resolve? (s : Scope) (name : String) : Option Value :=
  (s.lookup? name).or (Value.ofBuiltinName? name)

/-- The property of a value; undefined if it has none of that name.  What has no value has no
properties to ask for. -/
def readMember (v : Value) (key : String) (span : Span) : Evaluation Value :=
  if v.isNullish then throw (.mismatch (.noProperties key v.display) span)
  else pure ((v.member? key).getD .undefined)

/-- Calls a function. -/
def callFunction (services : Services) (f : Function) (arguments : List Value) (span : Span) :
    Evaluation Value := do
  match f with
  | .builtin b => return b.call services.pageProtocol arguments
  | .host name =>
    match ← modifyGet fun m =>
      let (answer, made) := services.host name arguments services.pageProtocol m.made
      (answer, { m with made }) with
    | .ok v => return v
    | .error message => throw (.mismatch (.host message) span)

/-- How an expression is named that turns out to be no function. -/
def Expression.calleeName : Expression → String
  | .identifier _ name => name
  | _ => "expression"

/-- Replaces `evaluation`, which belongs to the expression, where that is a name: one that stands for
nothing is undefined, and no fault. -/
def Expression.guarded (e : Expression) (evaluation : Evaluation Value) : Evaluation Value :=
  match e with
  | .identifier _ name => do return ((← get).scope.resolve? name).getD .undefined
  | _ => evaluation

/-- The value of a literal. -/
def Literal.toValue : Literal → Value
  | .number x => .number x
  | .text t => .text t
  | .bool b => .bool b
  | .null => .null
  | .undefined => .undefined

/-- What an operator makes of its operand. -/
def UnaryOperator.apply (operator : UnaryOperator) (v : Value) : Value :=
  match operator with
  | .not => .bool (!v.isTruthy)
  | .negate => .number (-v.toNumber)
  | .plus => .number v.toNumber
  | .typeOf => .text v.typeOf

/-- The left operand is the result, and the right one is not evaluated. -/
def BinaryOperator.settles (operator : BinaryOperator) (left : Value) : Bool :=
  match operator with
  | .and => !left.isTruthy
  | .or => left.isTruthy
  | _ => false

/-- What an operator makes of its operands, where the left one does not settle the result. -/
def BinaryOperator.apply (operator : BinaryOperator) (a b : Value) : Value :=
  match operator with
  | .multiply => .number (a.toNumber * b.toNumber)
  | .divide => .number (a.toNumber / b.toNumber)
  | .remainder => .number (Number.remainder a.toNumber b.toNumber)
  | .add => a.add b
  | .subtract => .number (a.toNumber - b.toNumber)
  | .less => .bool (a.order? b = some .lt)
  | .lessOrEqual => .bool (a.order? b = some .lt || a.order? b = some .eq)
  | .greater => .bool (a.order? b = some .gt)
  | .greaterOrEqual => .bool (a.order? b = some .gt || a.order? b = some .eq)
  | .equal => .bool (a.looseEquals b)
  | .notEqual => .bool (!a.looseEquals b)
  | .strictEqual => .bool (a.strictEquals b)
  | .strictNotEqual => .bool (!a.strictEquals b)
  | .and | .or => b

mutual

/-- The value of an expression. -/
def evaluate (services : Services) : Expression → Evaluation Value
  | .literal _ value => return value.toValue
  | .identifier span name => do
    match (← get).scope.resolve? name with
    | some v => return v
    | none => throw (.unbound name span)
  | .array _ items => do
    let values ← evaluateAll services items
    return .array (← newIdentity) values
  | .object _ entries => do
    let values ← evaluateEntries services entries
    return .object (← newIdentity) (Bindings.ofList values)
  | .member span object property => do
    readMember (← evaluate services object) property span
  | .index span object index => do
    let v ← evaluate services object
    let key ← evaluate services index
    readMember v key.display span
  | .call span (.member place object property) arguments => do
    let receiver ← evaluate services object
    match ← readMember receiver property place with
    | .function f => callFunction services f (← evaluateAll services arguments) span
    | .undefined =>
      let values ← evaluateAll services arguments
      match receiver.callMethod? (← newIdentity) property values with
      | some v => return v
      | none => throw (.mismatch (.notAFunction property) span)
    | _ => throw (.mismatch (.notAFunction property) span)
  | .call span callee arguments => do
    match ← evaluate services callee with
    | .function f => callFunction services f (← evaluateAll services arguments) span
    | _ => throw (.mismatch (.notAFunction callee.calleeName) span)
  | .unary _ .typeOf operand => do
    return UnaryOperator.typeOf.apply (← operand.guarded (evaluate services operand))
  | .unary _ operator operand => do
    return operator.apply (← evaluate services operand)
  | .binary _ operator left right => do
    let a ← evaluate services left
    if operator.settles a then return a
    else return operator.apply a (← evaluate services right)
  | .conditional _ condition consequent alternative => do
    if (← evaluate services condition).isTruthy then evaluate services consequent
    else evaluate services alternative
  | .assign _ name value => do
    let v ← evaluate services value
    modify fun m => { m with scope := m.scope.assign name v }
    return v

/-- The values of some expressions, from first to last. -/
def evaluateAll (services : Services) : List Expression → Evaluation (List Value)
  | [] => return []
  | e :: es => do
    let v ← evaluate services e
    return v :: (← evaluateAll services es)

/-- The values of the entries of an object, from first to last. -/
def evaluateEntries (services : Services) :
    List (String × Expression) → Evaluation (List (String × Value))
  | [] => return []
  | (key, e) :: entries => do
    let v ← evaluate services e
    return (key, v) :: (← evaluateEntries services entries)

end

/-- The value of an expression, where a mere name that stands for nothing is undefined. -/
def evaluateGuarded (services : Services) (e : Expression) : Evaluation Value :=
  e.guarded (evaluate services e)

end Stencil
