import Offside.IR.Module
import Offside.Text.Blank

/-
  The text of intermediate code.

  Key definitions include:
    * `Offside.IR.Operand.reference?`
    * `Offside.IR.Instruction.text?`
    * `Offside.IR.Module.text?`

  An operand that is not single has no text, and neither has a
  module with an instruction on one.
-/

------------------------------------------------------------
-- Names and Constants
------------------------------------------------------------

namespace Offside.IR

/- A name in quotes, with escapes for quotes and backslashes. -/
def quotedName
    (name : String) :
    String :=
  let escaped := name.toList.flatMap fun c =>
    if c = '\\' then ['\\', '5', 'c']
    else if c = '"' then ['\\', '2', '2']
    else [c]
  "\"" ++ String.ofList escaped ++ "\""

/- A name of a value in a function. -/
def localName
    (name : String) :
    String :=
  "%" ++ quotedName name

/- A name of a function. -/
def globalName
    (name : String) :
    String :=
  "@" ++ quotedName name

/- Whether a character of a label needs no quotes. -/
def isLabelChar
    (c : Char) :
    Bool :=
  c.isAlpha || c = '-' || c = '$' || c = '.' || c = '_'

/- A label before its block; an unusual one stands in quotes. -/
def labelText
    (label : String) :
    String :=
  let usual :=
    match label.toList with
    | [] => false
    | c :: cs =>
        isLabelChar c && cs.all fun c => isLabelChar c || c.isDigit
  if usual then label else quotedName label

/- How wide a constant is written at least. -/
def constantWidth : Nat := 16

/-
  A constant: the bits of the number in hexadecimal, with
  blanks before them.  A constant of single precision is
  rounded to that first.
-/
def constantText
    (type : Ty)
    (value : Binary64) :
    String :=
  let value := if type = .double then value else value.toSingle
  let digits := '0' :: 'x' :: Nat.toDigits 16 value.toBits
  String.ofList
    (List.replicate (constantWidth - digits.length) ' ' ++ digits)

end Offside.IR

------------------------------------------------------------
-- Operands
------------------------------------------------------------

namespace Offside.IR.Operand

/- How an instruction refers to an operand. -/
def reference? :
    Operand →
    Option String
  | const type value => some (constantText type value)
  | register _ name => some (localName name)
  | function _ name => some (globalName name)
  | many _ => none

/- The type and the reference of an operand. -/
def text?
    (o : Operand) :
    Option String := do
  let type ← o.type?
  let reference ← o.reference?
  return type.text ++ " " ++ reference

end Offside.IR.Operand

------------------------------------------------------------
-- Instructions
------------------------------------------------------------

namespace Offside.IR

/- The word for an arithmetic operation. -/
def Arithmetic.text :
    Arithmetic →
    String
  | add => "fadd"
  | sub => "fsub"
  | mul => "fmul"

/- The word for a comparison. -/
def Comparison.text :
    Comparison →
    String
  | less => "ult"
  | greater => "ugt"
  | differ => "one"

/- The text of what an instruction does. -/
def Op.text? :
    Op →
    Option String
  | alloca type => some ("alloca " ++ type.text)
  | load pointer => do
      let type ← pointer.type?
      let pointer ← pointer.text?
      return "load " ++ type.pointee.text ++ ", " ++ pointer
  | store value pointer => do
      let value ← value.text?
      let pointer ← pointer.text?
      return "store " ++ value ++ ", " ++ pointer
  | arithmetic op lhs rhs => do
      let lhs ← lhs.text?
      let rhs ← rhs.reference?
      return op.text ++ " " ++ lhs ++ ", " ++ rhs
  | compare op lhs rhs => do
      let lhs ← lhs.text?
      let rhs ← rhs.reference?
      return "fcmp " ++ op.text ++ " " ++ lhs ++ ", " ++ rhs
  | toFloat value => do
      let value ← value.text?
      return "uitofp " ++ value ++ " to " ++ Ty.float.text
  | toInt value bits => do
      let value ← value.text?
      return "fptoui " ++ value ++ " to " ++ (Ty.int bits).text
  | call signature callee args => do
      let args ← args.mapM Operand.text?
      return "call " ++ signature.result.text ++ " "
        ++ globalName callee ++ "(" ++ ", ".intercalate args ++ ")"
  | ret value => do
      let value ← value.text?
      return "ret " ++ value
  | jump target => some ("br label " ++ localName target)
  | branch cond yes no => do
      let cond ← cond.text?
      return "br " ++ cond ++ ", label " ++ localName yes
        ++ ", label " ++ localName no
  | phi type incoming => do
      let incoming ← incoming.mapM fun (value, label) => do
        let value ← value.reference?
        return "[" ++ value ++ ", " ++ localName label ++ "]"
      return "phi  " ++ type.text ++ " " ++ ", ".intercalate incoming

/- The text of an instruction. -/
def Instruction.text?
    (i : Instruction) :
    Option String := do
  let op ← i.op.text?
  return if i.op.hasResult then localName i.name ++ " = " ++ op else op

end Offside.IR

------------------------------------------------------------
-- Blocks, Functions and Modules
------------------------------------------------------------

namespace Offside.IR

/- A text without the white space at its end. -/
def trimRight
    (text : String) :
    String :=
  String.ofList (text.toList.reverse.dropWhile Text.isBlank).reverse

/- The text of a block. -/
def Block.text?
    (b : Block) :
    Option String := do
  let lines ← b.body.mapM fun i => do
    let text ← i.text?
    return "  " ++ trimRight text ++ "\n"
  return labelText b.label ++ ":\n" ++ "".intercalate lines

/- The text of a function. -/
def Function.text?
    (f : Function) :
    Option String := do
  let params := (f.signature.params.zip f.params).map
    fun (type, name) => type.text ++ " " ++ localName name
  let head := f.signature.result.text ++ " " ++ globalName f.name
    ++ "(" ++ ", ".intercalate params ++ ")\n"
  if f.blocks.isEmpty then
    return "declare " ++ head
  let blocks ← f.blocks.mapM Block.text?
  return "define " ++ head ++ "\x7b\n" ++ "".intercalate blocks ++ "\x7d\n"

/- The lines before the functions. -/
def moduleHead : String :=
  "; ModuleID = \"Arx\"\n"
    ++ "target triple = \"unknown-unknown-unknown\"\n"
    ++ "target datalayout = \"\"\n\n"

/- The text of a module. -/
def Module.text?
    (m : Module) :
    Option String := do
  let functions ← m.functions.mapM Function.text?
  return moduleHead ++ "\n".intercalate functions

end Offside.IR
