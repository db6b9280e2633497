import Mathlib
import Offside.Proofs.Parser.Location

/-
  Spellings: expressions as they are written, with the
  parentheses that stand in them.

  Key definitions include:
    * `Offside.Spelling`
    * `Offside.Spelling.tokens`
    * `Offside.Spelling.node`
    * `Offside.Spelling.Fits`

  A spelling fits a precedence table when no operand needs
  parentheses that it does not have.
-/

------------------------------------------------------------
-- Tokens Without Locations
------------------------------------------------------------

namespace Offside.Token

/- An operator. -/
def operator
    (s : String) :
    Token :=
  { kind := .operator, value := .text s }

/- A name. -/
def identifier
    (name : Value) :
    Token :=
  { kind := .identifier, value := name }

/- A number. -/
def number
    (value : Value) :
    Token :=
  { kind := .floatLiteral, value := value }

@[simp] theorem isOperator_operator
    (s t : String) :
    (operator s).isOperator t = decide (s = t) := by
  simp [operator, isOperator]

@[simp] theorem isOperator_identifier
    (name : Value)
    (s : String) :
    (identifier name).isOperator s = false := by
  simp [identifier, isOperator]

@[simp] theorem isOperator_number
    (value : Value)
    (s : String) :
    (number value).isOperator s = false := by
  simp [number, isOperator]

end Offside.Token

------------------------------------------------------------
-- Spellings
------------------------------------------------------------

namespace Offside

/- An expression as it is written. -/
inductive Spelling where
  | number (value : Value)
  | name (x : Value)
  | call (callee : Value) (args : List Spelling)
  | prefixed (op : Value) (operand : Spelling)
  | infixed (op : Value) (lhs rhs : Spelling)
  | grouped (inner : Spelling)

namespace Spelling

/-
  Induction on spellings, with a hypothesis for each argument
  of a call.
-/
@[elab_as_elim, induction_eliminator]
theorem induct
    {motive : Spelling → Prop}
    (number : ∀ value, motive (.number value))
    (name : ∀ x, motive (.name x))
    (call : ∀ callee args,
      (∀ arg ∈ args, motive arg) → motive (.call callee args))
    (prefixed : ∀ op operand,
      motive operand → motive (.prefixed op operand))
    (infixed : ∀ op lhs rhs,
      motive lhs → motive rhs → motive (.infixed op lhs rhs))
    (grouped : ∀ inner, motive inner → motive (.grouped inner)) :
    ∀ e : Spelling, motive e
  | .number value => number value
  | .name x => name x
  | .call callee args =>
      call callee args fun arg _ =>
        induct number name call prefixed infixed grouped arg
  | .prefixed op operand =>
      prefixed op operand
        (induct number name call prefixed infixed grouped operand)
  | .infixed op lhs rhs =>
      infixed op lhs rhs
        (induct number name call prefixed infixed grouped lhs)
        (induct number name call prefixed infixed grouped rhs)
  | .grouped inner =>
      grouped inner
        (induct number name call prefixed infixed grouped inner)

mutual

/- The tokens of a spelling. -/
def tokens :
    Spelling →
    List Token
  | number value => [Token.number value]
  | name x => [Token.identifier x]
  | call callee args =>
      Token.identifier callee :: Token.operator "(" ::
        tokensOfArgs args ++ [Token.operator ")"]
  | prefixed op operand =>
      { kind := .operator, value := op } :: tokens operand
  | infixed op lhs rhs =>
      tokens lhs ++ { kind := .operator, value := op } :: tokens rhs
  | grouped inner =>
      Token.operator "(" :: tokens inner ++ [Token.operator ")"]

/- The tokens of arguments, with commas between them. -/
def tokensOfArgs :
    List Spelling →
    List Token
  | [] => []
  | [arg] => tokens arg
  | arg :: arg' :: args =>
      tokens arg ++ Token.operator "," ::
        tokensOfArgs (arg' :: args)

end

mutual

/- The tree that a spelling stands for. -/
def node :
    Spelling →
    Node
  | number value => .float value
  | name x => .reference x Node.floatType Location.origin
  | call callee args =>
      .call callee (nodes args) Location.origin
  | prefixed op operand => .unary op (node operand)
  | infixed op lhs rhs =>
      .binary op (node lhs) (node rhs) Location.origin
  | grouped inner => node inner

/- The trees that several spellings stand for. -/
def nodes :
    List Spelling →
    List Node
  | [] => []
  | arg :: args => node arg :: nodes args

end

end Spelling

end Offside

------------------------------------------------------------
-- Fitting a Precedence Table
------------------------------------------------------------

namespace Offside

/-
  No parenthesis and no comma binds its neighbours, so that
  each of them ends an expression.
-/
structure Precedence.Proper
    (table : Precedence) :
    Prop where
  opening : table.of (.text "(") < 0
  closing : table.of (.text ")") < 0
  comma : table.of (.text ",") < 0

theorem Precedence.proper_default : default.Proper where
  opening := by decide
  closing := by decide
  comma := by decide

namespace Spelling

/- Whether no operator stands between two parts at the top. -/
def IsOperand :
    Spelling →
    Prop
  | infixed .. => False
  | _ => True

/- The operators that stand before an operand. -/
def IsPrefix
    (op : Value) :
    Prop :=
  op ≠ .text "(" ∧ op ≠ .text ")" ∧ op ≠ .text ","

mutual

/-
  Whether every operand has the parentheses it needs, where the
  whole stands beside an operator that leaves it all operators
  from `least` on.
-/
def Fits
    (table : Precedence)
    (least : Int) :
    Spelling →
    Prop
  | number _ | name _ => True
  | call _ args => AllFit table args
  | prefixed op operand =>
      IsPrefix op ∧ IsOperand operand ∧ Fits table 0 operand
  | infixed op lhs rhs =>
      0 ≤ table.of op ∧ least ≤ table.of op ∧
        Fits table (table.of op) lhs ∧
        Fits table (table.of op + 1) rhs
  | grouped inner => Fits table 0 inner

/- Whether every argument fits on its own. -/
def AllFit
    (table : Precedence) :
    List Spelling →
    Prop
  | [] => True
  | arg :: args => Fits table 0 arg ∧ AllFit table args

end

end Spelling

end Offside
