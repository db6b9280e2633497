import Offside.IR.Type
import Offside.Number.Binary64

/-
  Operands and instructions of intermediate code.

  Key definitions include:
    * `Offside.IR.Operand`
    * `Offside.IR.Op`
    * `Offside.IR.Instruction`

  Every instruction has a name of its own, also one without a
  result.
-/

------------------------------------------------------------
-- Operands
------------------------------------------------------------

namespace Offside.IR

/-
  What instructions work on: constants, named values and
  functions.  The values of a block are an operand too, which
  has no type and no text.
-/
inductive Operand where
  | const (type : Ty) (value : Binary64)
  | register (type : Ty) (name : String)
  | function (signature : Signature) (name : String)
  | many (items : List Operand)
  deriving Repr

namespace Operand

/- The type of a single operand. -/
def type? :
    Operand →
    Option Ty
  | const type _ => some type
  | register type _ => some type
  | function signature _ => some signature.type
  | many _ => none

/- Whether it is the value of an empty block. -/
def isNothing :
    Operand →
    Bool
  | many items => items.isEmpty
  | _ => false

/- The constant zero of a type. -/
def zero
    (type : Ty) :
    Operand :=
  const type Binary64.zero

end Operand

end Offside.IR

------------------------------------------------------------
-- Instructions
------------------------------------------------------------

namespace Offside.IR

/- Arithmetic on numbers. -/
inductive Arithmetic where
  | add
  | sub
  | mul
  deriving DecidableEq, Repr

/-
  Comparisons of numbers: less or greater, also where one is no
  number; and different, only where both are numbers.
-/
inductive Comparison where
  | less
  | greater
  | differ
  deriving DecidableEq, Repr

/- What an instruction does. -/
inductive Op where
  | alloca (type : Ty)
  | load (pointer : Operand)
  | store (value pointer : Operand)
  | arithmetic (op : Arithmetic) (lhs rhs : Operand)
  | compare (op : Comparison) (lhs rhs : Operand)
  | toFloat (value : Operand)
  | toInt (value : Operand) (bits : Nat)
  | call (signature : Signature) (callee : String) (args : List Operand)
  | ret (value : Operand)
  | jump (target : String)
  | branch (cond : Operand) (yes no : String)
  | phi (type : Ty) (incoming : List (Operand × String))
  deriving Repr

namespace Op

/- Whether the instruction ends its block. -/
def isTerminator :
    Op →
    Bool
  | ret _ | jump _ | branch .. => true
  | _ => false

/- Whether the instruction has a result. -/
def hasResult :
    Op →
    Bool
  | store .. => false
  | call signature _ _ => signature.result ≠ .void
  | op => !op.isTerminator

end Op

/- An instruction and its name. -/
structure Instruction where
  name : String
  op : Op
  deriving Repr

end Offside.IR
