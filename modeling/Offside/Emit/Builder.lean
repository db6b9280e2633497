import Offside.Emit.State

/-
  Placing instructions: where the next one goes, and what each
  kind of instruction asks of its operands.

  Key definitions include:
    * `Offside.Emit.place`
    * `Offside.Emit.terminate`
    * `Offside.Emit.allocate`
    * `Offside.Emit.target`
    * `Offside.Emit.call`

  An instruction takes its name into use before it is placed.
-/

------------------------------------------------------------
-- The Cursor
------------------------------------------------------------

namespace Offside.Emit

open IR (Ty Operand Op Arithmetic Comparison Cursor)

/- The place where the next instruction goes. -/
def cursor : Emit Cursor := do
  match (← get).generator.cursor with
  | some c => return c
  | none => throw .noBlock

/- The function that code is placed in. -/
def currentFunction : Emit String := do
  match (← get).generator.cursor with
  | some c => return c.function
  | none => throw .missingPart

/- Moves the cursor. -/
def moveTo
    (c : Cursor) :
    Emit Unit :=
  modify fun s => { s with generator.cursor := some c }

/- Changes the module. -/
def modifyModule
    (change : IR.Module → IR.Module) :
    Emit Unit :=
  modify fun s =>
    { s with generator.module := change s.generator.module }

/- Takes a name into use in a function. -/
def register
    (function name : String) :
    Emit String := do
  let (name, m) := (← get).generator.module.register function name
  modifyModule fun _ => m
  return name

/- Moves the cursor to the start of a block. -/
def moveToStart
    (function label : String) :
    Emit Unit :=
  moveTo ⟨function, label, 0⟩

/- Moves the cursor to the end of the block it is in. -/
def moveToEnd : Emit Unit :=
  modify fun s =>
    { s with
      generator.cursor := s.generator.cursor.map fun c =>
        { c with
          anchor :=
            ((s.generator.module.blockAt? c).map
              fun b => b.body.length).getD 0 } }

/- Adds a block to a function, under a name of its own. -/
def appendBlock
    (function label : String) :
    Emit String := do
  let label ← register function label
  modifyModule fun m => m.modify function fun f => f.attach label
  return label

/- Adds a block to a function of the module and goes there. -/
def enter
    (function label : String) :
    Emit String := do
  if ((← get).generator.module.function? function).isNone then
    throw (.unbound function)
  let label ← appendBlock function label
  moveToStart function label
  return label

/- Adds a block whose name is in use already. -/
def attachBlock
    (function label : String) :
    Emit Unit :=
  modifyModule fun m => m.modify function fun f => f.attach label

end Offside.Emit

------------------------------------------------------------
-- Instructions
------------------------------------------------------------

namespace Offside.Emit

open IR (Ty Operand Op Arithmetic Comparison Cursor)

/- Puts an instruction at the cursor, which moves past it. -/
def insertAt
    (c : Cursor)
    (name : String)
    (op : Op) :
    Emit Unit := do
  modifyModule fun m => m.insert c ⟨name, op⟩
  moveTo { c with anchor := c.anchor + 1 }

/- Places an instruction and gives back its name. -/
def place
    (name : String)
    (op : Op) :
    Emit String := do
  let c ← cursor
  let name ← register c.function name
  insertAt c name op
  return name

/- Places an instruction that ends its block. -/
def terminate
    (op : Op) :
    Emit Unit := do
  let c ← cursor
  let name ← register c.function ""
  let block? := (← get).generator.module.blockAt? c
  if block?.any IR.Block.isTerminated then
    throw .terminated
  insertAt c name op

/- Reserves memory for a number, here. -/
def allocateHere
    (name : String) :
    Emit Operand := do
  let name ← place name (.alloca .float)
  return .register (.pointer .float) name

/-
  Reserves memory at the start of the function, whatever the
  place of other code.  The cursor does not move.
-/
def allocate
    (name typeName : String) :
    Emit Operand := do
  let function ← currentFunction
  match Ty.ofName? typeName with
  | none => throw .unknownType
  | some .void => throw .voidPointer
  | some type =>
      let name ← register function name
      modifyModule fun m => m.modify function fun f =>
        f.modifyEntry fun b => b.insert 0 ⟨name, .alloca type⟩
      return .register (.pointer type) name

/- The type of what an address leads to, which has to be a pointer. -/
def target
    (access : Access)
    (address : Operand) :
    Emit Ty := do
  match ← part address.type? with
  | .pointer type => return type
  | type =>
      throw (.notPointer access type (address.text?.getD ""))

/- Reads memory. -/
def load
    (pointer : Operand)
    (name : String) :
    Emit Operand := do
  let type ← target .load pointer
  let name ← place name (.load pointer)
  return .register type name

/- Writes memory; the value has to be of the type kept there. -/
def store
    (value pointer : Operand) :
    Emit Unit := do
  let type ← target .store pointer
  let valueType ← part value.type?
  unless type = valueType do
    throw (.storeTypes valueType (.pointer type))
  let _ ← place "" (.store value pointer)

/- Computes with two values of the same type. -/
def arithmetic
    (op : Arithmetic)
    (lhs rhs : Operand)
    (name : String) :
    Emit Operand := do
  let lhsType ← part lhs.type?
  let rhsType ← part rhs.type?
  unless lhsType = rhsType do
    throw (.operandTypes lhsType rhsType)
  let name ← place name (.arithmetic op lhs rhs)
  return .register lhsType name

/- Compares; only the left value has to be single. -/
def compare
    (op : Comparison)
    (lhs rhs : Operand)
    (name : String) :
    Emit Operand := do
  let _ ← part lhs.type?
  let name ← place name (.compare op lhs rhs)
  return .register .bool name

/- Turns a truth value into zero or one. -/
def toFloat
    (value : Operand)
    (name : String) :
    Emit Operand := do
  let name ← place name (.toFloat value)
  return .register .float name

/- Checks arguments against the types of parameters. -/
def checkArguments
    (index : Nat) :
    List Ty →
    List Operand →
    Emit Unit
  | [], _ => return
  | _ :: _, [] => throw .missingArgument
  | type :: types, arg :: args => do
      let found ← part arg.type?
      unless type = found do
        throw (.argumentType index type found)
      checkArguments (index + 1) types args

/- Calls a function. -/
def call
    (function : Operand)
    (args : List Operand)
    (name : String) :
    Emit Operand := do
  match function with
  | .function signature callee =>
      checkArguments 1 signature.params args
      let name ← place name (.call signature callee args)
      return .register signature.result name
  | _ => throw .missingPart

end Offside.Emit
