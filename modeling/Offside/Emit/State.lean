import Offside.IR.Text
import Offside.Node.Basic
import Offside.Source.Folder

/-
  The state of code generation, the errors it reports, and its
  stack and variable bindings.

  Key definitions include:
    * `Offside.EmitError`
    * `Offside.Bindings`
    * `Offside.Generator`
    * `Offside.EmitState`
    * `Offside.Emit`

  All generators share one set of bindings; the rest belongs to
  one generator.
-/

------------------------------------------------------------
-- Errors
------------------------------------------------------------

namespace Offside

/- Why a node cannot be turned into code. -/
inductive Invalid where
  | unaryOperand
  | unaryOperator
  | destination
  | assignedValue
  | operands
  | callee
  | argumentCount
  | argument
  | condition
  | firstBranch
  | secondBranch
  | firstValue
  | function
  deriving DecidableEq, Repr

namespace Invalid

/- The text of the cause. -/
def text :
    Invalid →
    String
  | unaryOperand => "ObjectGen: Empty unary operand."
  | unaryOperator => "Unknown unary operator"
  | destination => "destination of '=' must be a variable"
  | assignedValue => "codegen: Invalid rhs expression."
  | operands => "codegen: Invalid lhs/rhs"
  | callee => "Unknown function referenced"
  | argumentCount => "codegen: Incorrect # arguments passed."
  | argument => "codegen: Invalid callee argument."
  | condition => "codegen: Invalid condition expression."
  | firstBranch => "codegen: `Then` expression is invalid."
  | secondBranch => "Revisit this!"
  | firstValue => "codegen: Invalid start argument."
  | function => "codegen: Invalid function."

end Invalid

/- What an address is used for. -/
inductive Access where
  | load
  | store
  deriving DecidableEq, Repr

namespace Access

/- The text of the use. -/
def text :
    Access →
    String
  | load => "load from"
  | store => "store to"

end Access

/-
  Errors of code generation.  The middle group comes from
  placing instructions: there is no block to place one in, the
  block has ended, or the types of operands do not fit.
-/
inductive EmitError where
  | notImplemented
  | noEvaluation (label : String)
  | declaration (label : String)
  | unknownType
  | unknownVariable (name : String)
  | unbound (name : String)
  | invalid (cause : Invalid)
  | emptyStack
  | missingArgument
  | noBlock
  | terminated
  | voidPointer
  | missingPart
  | duplicateName (name : String)
  | operandTypes (lhs rhs : IR.Ty)
  | notPointer (access : Access) (type : IR.Ty) (shown : String)
  | storeTypes (value pointer : IR.Ty)
  | argumentType (index : Nat) (expected found : IR.Ty)
  | unterminated
  | file (e : FileError)
  deriving DecidableEq, Repr

namespace EmitError

/- The text of the error. -/
def message :
    EmitError →
    String
  | notImplemented => "CodeGenError: Not implemented yet."
  | noEvaluation label =>
      "CodeGenError: Not an evaluation for " ++ label
        ++ " implement yet."
  | declaration label =>
      "CodeGen for " ++ label ++ " not implemented yet."
  | unknownType =>
      "CodeGenError: [EE] CodeGen(LLVM): type_name not valid."
  | unknownVariable name => "Unknown variable name: " ++ name
  | unbound name => Text.quoted name
  | invalid cause => cause.text
  | emptyStack => "pop from empty list"
  | missingArgument => "list index out of range"
  | noBlock | terminated | voidPointer => ""
  | missingPart => "a value or node lacks a part"
  | duplicateName name => name
  | operandTypes lhs rhs =>
      "Operands must be the same type, got (" ++ lhs.text ++ ", "
        ++ rhs.text ++ ")"
  | notPointer access type shown =>
      "cannot " ++ access.text ++ " value of type " ++ type.text
        ++ " (" ++ Text.quoted shown ++ "): not a pointer"
  | storeTypes value pointer =>
      "cannot store " ++ value.text ++ " to " ++ pointer.text
        ++ ": mismatching types"
  | argumentType index expected found =>
      "Type of #" ++ toString index ++ " arg mismatch: "
        ++ expected.text ++ " != " ++ found.text
  | unterminated => "a block has no terminator"
  | file e => e.message

end EmitError

end Offside

------------------------------------------------------------
-- Bindings
------------------------------------------------------------

namespace Offside

/- Variables and where their values are kept. -/
structure Bindings where
  entries : List (String × IR.Operand)

namespace Bindings

/- No variable is bound. -/
def empty : Bindings := ⟨[]⟩

/- Where the value of a variable is kept. -/
def get?
    (b : Bindings)
    (name : String) :
    Option IR.Operand :=
  b.entries.lookup name

/- Unbinds a variable. -/
def erase
    (b : Bindings)
    (name : String) :
    Bindings :=
  ⟨b.entries.filter fun entry => entry.1 ≠ name⟩

/- Binds a variable. -/
def set
    (b : Bindings)
    (name : String)
    (address : IR.Operand) :
    Bindings :=
  ⟨(name, address) :: (b.erase name).entries⟩

/- Binds a variable as before, or unbinds it. -/
def restore
    (b : Bindings)
    (name : String)
    (old : Option IR.Operand) :
    Bindings :=
  match old with
  | some address => b.set name address
  | none => b.erase name

end Bindings

end Offside

------------------------------------------------------------
-- Generators
------------------------------------------------------------

namespace Offside

/-
  A generator: the module and the place in it where code goes,
  the values of the nodes visited, the last one first, and the
  prototypes met.  A generator that `resolves` finds functions
  by name; another one only looks.
-/
structure Generator where
  resolves : Bool
  inputFile : String
  outputFile : String
  isLibrary : Bool
  module : IR.Module
  cursor : Option IR.Cursor
  stack : List IR.Operand
  prototypes : List (String × Node)

namespace Generator

/- The ending of the files that hold objects. -/
def objectEnding : String := ".o"

/- A new generator; without a name its output is named for the input. -/
def new
    (resolves : Bool)
    (inputFile outputFile : String)
    (isLibrary : Bool) :
    Generator :=
  { resolves := resolves
    inputFile := inputFile
    outputFile :=
      if outputFile = "" then inputFile ++ objectEnding else outputFile
    isLibrary := isLibrary
    module := .new
    cursor := none
    stack := []
    prototypes := [] }

end Generator

/-
  One generator at work, the bindings it shares with others,
  what was printed, and the files around it.
-/
structure EmitState where
  generator : Generator
  bindings : Bindings
  printed : String
  folder : Folder

/- A step of code generation. -/
abbrev Emit := EStateM EmitError EmitState

end Offside

------------------------------------------------------------
-- Elementary Steps
------------------------------------------------------------

namespace Offside.Emit

/- Puts a value on the stack. -/
def push
    (value : IR.Operand) :
    Emit Unit :=
  modify fun s =>
    { s with generator.stack := value :: s.generator.stack }

/- Takes the last value off the stack. -/
def pop : Emit IR.Operand := fun s =>
  match s.generator.stack with
  | [] => .error .emptyStack s
  | value :: stack => .ok value { s with generator.stack := stack }

/- Runs a visit and takes what it has left on the stack. -/
def taking
    (visit : Emit Unit) :
    Emit IR.Operand := do
  visit
  pop

/- Runs a visit that has to leave a value. -/
def takingValue
    (visit : Emit Unit)
    (cause : Invalid) :
    Emit IR.Operand := do
  let value ← taking visit
  if value.isNothing then
    throw (.invalid cause)
  return value

/- Adds to what is printed. -/
def print
    (text : String) :
    Emit Unit :=
  modify fun s => { s with printed := s.printed ++ text }

/- Binds a variable. -/
def setBinding
    (name : String)
    (address : IR.Operand) :
    Emit Unit :=
  modify fun s => { s with bindings := s.bindings.set name address }

/- Where the value of a variable is kept. -/
def address?
    (name : String) :
    Emit (Option IR.Operand) := do
  return (← get).bindings.get? name

/- A part that has to be there. -/
def part
    {α : Type}
    (found : Option α) :
    Emit α :=
  match found with
  | some a => return a
  | none => throw .missingPart

end Offside.Emit
