/-
  The types of intermediate code.

  Key definitions include:
    * `Offside.IR.Ty`
    * `Offside.IR.Signature`

  All parameters of a function have one type.
-/

------------------------------------------------------------
-- Types
------------------------------------------------------------

namespace Offside.IR

/- The types of operands. -/
inductive Ty where
  | float
  | double
  | int (bits : Nat)
  | void
  | pointer (target : Ty)
  | function (result param : Ty) (arity : Nat)
  deriving DecidableEq, Repr

namespace Ty

/- The type of truth values. -/
def bool : Ty := int 1

/- The text of a type. -/
def text :
    Ty →
    String
  | float => "float"
  | double => "double"
  | int bits => "i" ++ toString bits
  | void => "void"
  | pointer target => target.text ++ "*"
  | function result param arity =>
      result.text ++ " ("
        ++ ", ".intercalate (List.replicate arity param.text) ++ ")"

/- The type of what a pointer leads to. -/
def pointee :
    Ty →
    Ty
  | pointer target => target
  | type => type

/- The type that a name in a program stands for. -/
def ofName? :
    String →
    Option Ty
  | "float" => some float
  | "double" => some double
  | "int8" => some (int 8)
  | "int32" => some (int 32)
  | "char" => some (int 8)
  | "void" => some void
  | _ => none

end Ty

/- What a function gives back, and what and how much it takes. -/
structure Signature where
  result : Ty
  param : Ty
  arity : Nat
  deriving DecidableEq, Repr

namespace Signature

/- The types of the parameters. -/
def params
    (s : Signature) :
    List Ty :=
  List.replicate s.arity s.param

/- The type of a function, which is known by its address. -/
def type
    (s : Signature) :
    Ty :=
  .pointer (.function s.result s.param s.arity)

/- Takes numbers and gives one back. -/
def ofArity
    (n : Nat) :
    Signature :=
  ⟨.float, .float, n⟩

end Signature

end Offside.IR
