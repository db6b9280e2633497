import Offside.Emit.Builder
import Offside.Outline.Visit

/-
  Code generation: a walk over a syntax tree that places code
  and leaves the value of each node on the stack.

  Key definitions include:
    * `Offside.Emit.getFunction`
    * `Offside.Emit.conditional`
    * `Offside.Emit.repetition`
    * `Offside.Emit.definition`
    * `Offside.Emit.visit`

  Each form of the language has a step of its own, which is
  given the visits of its parts.
-/

------------------------------------------------------------
-- Values
------------------------------------------------------------

namespace Offside.Emit

open IR (Ty Operand)

/- The constant for a literal. -/
def constant
    (value : Value) :
    Operand :=
  match value with
  | .amount (.real x) => .const .float x
  | .amount (.whole n) =>
      .const .float (Binary64.ofRatio (n < 0) n.natAbs 1)
  | .text _ => .const .float .nan

/- Reads a variable. -/
def reading
    (name : Value) :
    Emit Unit := do
  match ← address? name.shown with
  | none => throw (.unknownVariable name.shown)
  | some address =>
      let value ← load address name.shown
      push value

/- Assigns to a variable; the value is that which is assigned. -/
def assignment
    (lhs : Node)
    (rhs : Emit Unit) :
    Emit Unit := do
  match lhs with
  | .reference name _ _ =>
      let value ← takingValue rhs .assignedValue
      match ← address? name.shown with
      | none => throw (.unbound name.shown)
      | some address =>
          store value address
          push value
  | _ => throw (.invalid .destination)

end Offside.Emit

------------------------------------------------------------
-- Functions by Name
------------------------------------------------------------

namespace Offside.Emit

open IR (Ty Operand)

/-
  Names the parameters of a new function after the arguments of
  its prototype.
-/
def nameParams
    (function : String)
    (index : Nat) :
    List Node →
    Emit Unit
  | [] => return
  | arg :: args => do
      let name ← part arg.name?
      modifyModule fun m => m.modify function fun f =>
        f.renameParam index name.shown
      nameParams function (index + 1) args

/- Declares a function. -/
def declareFunction
    (proto : Node) :
    Emit Operand := do
  let args ← part proto.args?
  let name ← part proto.name?
  unless (← get).generator.module.isFree name.shown do
    throw (.duplicateName name.shown)
  let f := IR.Function.declare name.shown (.ofArity args.length)
  modifyModule fun m => m.add f
  nameParams name.shown 0 args
  return f.operand

/- The function of that name in the module. -/
def function?
    (name : String) :
    Emit (Option IR.Function) := do
  return (← get).generator.module.function? name

/-
  Looks for a function.  One that is there goes on the stack,
  one whose prototype is known is declared.  The function is
  given back only by a generator that resolves names.
-/
def getFunction
    (name : String) :
    Emit (Option Operand) := do
  match ← function? name with
  | some f => push f.operand
  | none =>
      match (← get).generator.prototypes.lookup name with
      | some (.reference name _ _) => reading name
      | some proto => discard (declareFunction proto)
      | none => return none
  if (← get).generator.resolves then
    return (← function? name).map IR.Function.operand
  return none

end Offside.Emit

------------------------------------------------------------
-- Operators and Calls
------------------------------------------------------------

namespace Offside.Emit

open IR (Ty Operand)

/- An operator before its operand: a function of the program. -/
def unary
    (op : Value)
    (operand : Emit Unit) :
    Emit Unit := do
  let value ← takingValue operand .unaryOperand
  match ← getFunction ("unary" ++ op.shown) with
  | none => throw (.invalid .unaryOperator)
  | some f =>
      let result ← call f [value] "unop"
      push result

/- A comparison whose result is a number. -/
def comparison
    (op : IR.Comparison)
    (lhs rhs : Operand)
    (name : String) :
    Emit Operand := do
  let test ← compare op lhs rhs name
  toFloat test "booltmp"

/- Applies a binary operator to two values. -/
def operation
    (op : String)
    (lhs rhs : Operand) :
    Emit Operand :=
  match op with
  | "+" => arithmetic .add lhs rhs "addtmp"
  | "-" => arithmetic .sub lhs rhs "subtmp"
  | "*" => arithmetic .mul lhs rhs "multmp"
  | "<" => comparison .less lhs rhs "lttmp"
  | ">" => comparison .greater lhs rhs "gttmp"
  | op => do
      match ← getFunction ("binary" ++ op) with
      | none => throw .missingPart
      | some f => call f [lhs, rhs] "binop"

/- An operator between two operands. -/
def binary
    (op : Value)
    (lhsNode : Node)
    (lhs rhs : Emit Unit) :
    Emit Unit := do
  if op = .text "=" then
    assignment lhsNode rhs
  else do
    let lhs ← taking lhs
    let rhs ← taking rhs
    if lhs.isNothing || rhs.isNothing then
      throw (.invalid .operands)
    let result ← operation op.shown lhs rhs
    push result

/- A call of a function with as many arguments as parameters. -/
def application
    (callee : Value)
    (count : Nat)
    (args : Emit (List Operand)) :
    Emit Unit := do
  match ← getFunction callee.shown with
  | some (.function signature name) =>
      unless signature.params.length = count do
        throw (.invalid .argumentCount)
      let values ← args
      let result ← call (.function signature name) values "calltmp"
      push result
  | _ => throw (.invalid .callee)

end Offside.Emit

------------------------------------------------------------
-- Control
------------------------------------------------------------

namespace Offside.Emit

open IR (Ty Operand)

/- The label of the block that code is placed in. -/
def currentBlock : Emit String := do
  return (← cursor).block

/-
  A condition with two branches, which meet in a block that
  picks the value of the branch taken.
-/
def conditional
    (cond yes no : Emit Unit) :
    Emit Unit := do
  let cond ← takingValue cond .condition
  let test ← compare .differ cond (.zero .float) ""
  let function ← currentFunction
  let thenLabel ← appendBlock function "then"
  let elseLabel ← register function "else"
  let meetLabel ← register function "ifcont"
  terminate (.branch test thenLabel elseLabel)
  moveToStart function thenLabel
  let yesValue ← takingValue yes .firstBranch
  terminate (.jump meetLabel)
  let yesEnd ← currentBlock
  attachBlock (← currentFunction) elseLabel
  moveToStart function elseLabel
  let noValue ← takingValue no .secondBranch
  let noEnd ← currentBlock
  terminate (.jump meetLabel)
  attachBlock (← currentFunction) meetLabel
  moveToStart function meetLabel
  let name ← place "iftmp"
    (.phi .float [(yesValue, yesEnd), (noValue, noEnd)])
  push (.register .float name)

/- The end of a loop: the counter moves on, and the test is made. -/
def closeLoop
    (counter : String)
    (address step last : Operand)
    (loopLabel : String) :
    Emit Unit := do
  let value ← load address counter
  let next ← arithmetic .add value step "nextvar"
  store next address
  let test ← compare .differ last (.zero .double) "loopcond"
  let function ← currentFunction
  let afterLabel ← appendBlock function "afterloop"
  terminate (.branch test loopLabel afterLabel)
  moveToStart function afterLabel

/-
  A loop, whose body runs before its test.  When body, step or
  test is the value of an empty block, generation stops there,
  with the counter still bound and no value on the stack.
-/
def repetition
    (counter : Value)
    (hasStep : Bool)
    (first last step body : Emit Unit) :
    Emit Unit := do
  let counter := counter.shown
  let address ← allocate counter "float"
  moveToEnd
  let start ← takingValue first .firstValue
  store start address
  let function ← currentFunction
  let loopLabel ← appendBlock function "loop"
  terminate (.jump loopLabel)
  moveToStart function loopLabel
  let old ← address? counter
  setBinding counter address
  let value ← taking body
  if value.isNothing then
    return
  let step ← (if hasStep then taking step
    else return .const .float Binary64.one)
  if step.isNothing then
    return
  let last ← taking last
  if last.isNothing then
    return
  closeLoop counter address step last loopLabel
  modify fun s => { s with bindings := s.bindings.restore counter old }
  push (.zero .float)

end Offside.Emit

------------------------------------------------------------
-- Definitions
------------------------------------------------------------

namespace Offside.Emit

open IR (Ty Operand)

/- Keeps the arguments of a function in memory, under their names. -/
def bindArguments :
    List (String × Operand) →
    Emit Unit
  | [] => return
  | (name, value) :: args => do
      let address ← allocateHere name
      store value address
      setBinding name address
      bindArguments args

/- Notes the prototype of a function. -/
def noteProto
    (name : String)
    (proto : Node) :
    Emit Unit :=
  modify fun s =>
    { s with
      generator.prototypes :=
        (name, proto) ::
          s.generator.prototypes.filter fun entry => entry.1 ≠ name }

/-
  Defines a function: its arguments are bound, its body is
  visited, and the value of the body is given back.
-/
def definition
    (proto : Node)
    (body : Emit Unit) :
    Emit Operand := do
  let name ← part proto.givenName?
  noteProto name.shown proto
  match ← getFunction name.shown with
  | none => throw (.invalid .function)
  | some operand =>
      let label ← appendBlock name.shown "entry"
      moveToStart name.shown label
      let f ← part (← function? name.shown)
      bindArguments (f.params.zip f.arguments)
      let value ← taking body
      terminate (.ret (if value.isNothing then .zero .float else value))
      return operand

end Offside.Emit

------------------------------------------------------------
-- The Walk
------------------------------------------------------------

namespace Offside.Emit

open IR (Ty Operand)

mutual

/- Visits a node. -/
def visit :
    Node →
    Emit Unit
  | .absent | .plain _ => print unknownNodeLine
  | .float value => push (constant value)
  | .reference name _ _ => reading name
  | .unary op operand => unary op (visit operand)
  | .binary op lhs rhs _ => binary op lhs (visit lhs) (visit rhs)
  | .call callee args _ =>
      application callee args.length (visitArguments args)
  | .branch cond yes no _ =>
      conditional (visit cond) (visit yes) (visit no)
  | .loop counter first last step body =>
      repetition counter step.isPresent (visit first) (visit last)
        (visit step) (visit body)
  | .declare names type body =>
      throw (.declaration (Node.declare names type body).label)
  | .prototype name type args line =>
      discard (declareFunction (.prototype name type args line))
  | .function proto body => discard (definition proto (visit body))
  | .ret _ => return
  | .program .. => throw .notImplemented
  | .block nodes => do
      let values ← visitAll nodes
      push (.many values)

/- Visits nodes one after another and takes their values. -/
def visitAll :
    List Node →
    Emit (List Operand)
  | [] => return []
  | node :: nodes => do
      let value ← taking (visit node)
      let values ← visitAll nodes
      return value :: values

/- Visits the arguments of a call, each of which has a value. -/
def visitArguments :
    List Node →
    Emit (List Operand)
  | [] => return []
  | node :: nodes => do
      let value ← takingValue (visit node) .argument
      let values ← visitArguments nodes
      return value :: values

end

/- Visits a node as a block: it has to have nodes. -/
def visitBlock
    (tree : Node) :
    Emit Unit := do
  let nodes ← part tree.nodes?
  visit (.block nodes)

end Offside.Emit

------------------------------------------------------------
-- Visits as a Given Form
------------------------------------------------------------

namespace Offside

/- The forms that a node can be visited as. -/
inductive VisitForm where
  | binary
  | block
  | call
  | float
  | loop
  | function
  | branch
  | program
  | prototype
  | ret
  | unary
  | declaration
  | reference
  deriving DecidableEq, Repr

namespace Emit

/-
  Visits a node as the given form, which asks for the parts of
  that form.  A function or prototype gives back the function.
-/
def visitAs
    (form : VisitForm)
    (node : Node) :
    Emit (Option IR.Operand) :=
  match form, node with
  | .block, node => do
      visitBlock node
      return none
  | .function, .function proto body => do
      let f ← definition proto (visit body)
      return some f
  | .prototype, node => do
      let f ← declareFunction node
      return some f
  | .reference, node => do
      let name ← part node.name?
      reading name
      return none
  | .ret, _ => return none
  | .program, _ => throw .notImplemented
  | .declaration, node => throw (.declaration node.label)
  | .binary, .binary op lhs rhs location => do
      visit (.binary op lhs rhs location)
      return none
  | .call, .call callee args location => do
      visit (.call callee args location)
      return none
  | .float, .float value => do
      visit (.float value)
      return none
  | .loop, .loop counter first last step body => do
      visit (.loop counter first last step body)
      return none
  | .branch, .branch cond yes no location => do
      visit (.branch cond yes no location)
      return none
  | .unary, .unary op operand => do
      visit (.unary op operand)
      return none
  | _, _ => throw .missingPart

end Emit

end Offside
