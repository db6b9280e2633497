import Offside.Token.Basic

/-
  Syntax trees: the nodes of a program, their kinds and their
  children.

  Key definitions include:
    * `Offside.Node`
    * `Offside.NodeKind`
    * `Offside.Node.children`
    * `Offside.Node.preorder`

  Names and operators are token values, because a node keeps
  what its token carried.
-/

------------------------------------------------------------
-- Nodes
------------------------------------------------------------

namespace Offside

/- The nodes of a syntax tree.  A part can be absent. -/
inductive Node where
  | absent
  | plain (location : Location)
  | float (value : Value)
  | reference (name : Value) (type : String) (location : Location)
  | unary (op : Value) (operand : Node)
  | binary (op : Value) (lhs rhs : Node) (location : Location)
  | call (callee : Value) (args : List Node) (location : Location)
  | branch (cond yes no : Node) (location : Location)
  | loop (counter : Value) (first last step body : Node)
  | declare (names : List (Value × Node)) (type : String) (body : Node)
  | prototype (name : Value) (type : String) (args : List Node) (line : Nat)
  | function (proto body : Node)
  | ret (value : Node)
  | program (name : String) (nodes : List Node)
  | block (nodes : List Node)
  deriving Repr

namespace Node

instance : Inhabited Node := ⟨absent⟩

/- The type of everything that a program computes. -/
def floatType : String := "float"

/- The literal one. -/
def one : Node := float (.amount (.real Binary64.one))

/- The literal zero. -/
def zero : Node := float (.amount (.real Binary64.zero))

end Node

end Offside

------------------------------------------------------------
-- Kinds of Node
------------------------------------------------------------

namespace Offside

/- The kinds of node; blocks and plain nodes share one. -/
inductive NodeKind where
  | generic
  | program
  | reference
  | declaration
  | unaryOp
  | binaryOp
  | prototype
  | function
  | call
  | ret
  | branch
  | loop
  | float
  deriving DecidableEq, Repr

namespace NodeKind

/- The name of a kind. -/
def title :
    NodeKind →
    String
  | generic => "GenericKind"
  | program => "ModuleKind"
  | reference => "VariableKind"
  | declaration => "VarKind"
  | unaryOp => "UnaryOpKind"
  | binaryOp => "BinaryOpKind"
  | prototype => "PrototypeKind"
  | function => "FunctionKind"
  | call => "CallKind"
  | ret => "ReturnKind"
  | branch => "IfKind"
  | loop => "ForKind"
  | float => "FloatDTKind"

/- The number of a kind. -/
def code :
    NodeKind →
    Int
  | generic => -1
  | program => -2
  | reference => -10
  | declaration => -11
  | unaryOp => -20
  | binaryOp => -21
  | prototype => -30
  | function => -31
  | call => -32
  | ret => -33
  | branch => -40
  | loop => -41
  | float => -110

end NodeKind

namespace Node

/- The kind of a node. -/
def kind :
    Node →
    NodeKind
  | absent | plain _ | block _ => .generic
  | float _ => .float
  | reference .. => .reference
  | unary .. => .unaryOp
  | binary .. => .binaryOp
  | call .. => .call
  | branch .. => .branch
  | loop .. => .loop
  | declare .. => .declaration
  | prototype .. => .prototype
  | function .. => .function
  | ret _ => .ret
  | program .. => .program

/- How messages name the class of a node. -/
def className :
    Node →
    String
  | absent => "None"
  | plain _ => "ExprAST"
  | float _ => "FloatExprAST"
  | reference .. => "VariableExprAST"
  | unary .. => "UnaryExprAST"
  | binary .. => "BinaryExprAST"
  | call .. => "CallExprAST"
  | branch .. => "IfStmtAST"
  | loop .. => "ForStmtAST"
  | declare .. => "VarExprAST"
  | prototype .. => "PrototypeAST"
  | function .. => "FunctionAST"
  | ret _ => "ReturnStmtAST"
  | program .. => "ModuleAST"
  | block _ => "BlockAST"

/- How messages show a node. -/
def label :
    Node →
    String
  | absent => "None"
  | node => "<arx.ast." ++ node.className ++ " object>"

/- Whether there is a node at all. -/
def isPresent :
    Node →
    Bool
  | absent => false
  | _ => true

end Node

end Offside

------------------------------------------------------------
-- Parts of Nodes
------------------------------------------------------------

namespace Offside.Node

/- The location that a node keeps. -/
def location :
    Node →
    Location
  | plain location => location
  | reference _ _ location => location
  | binary _ _ _ location => location
  | call _ _ location => location
  | branch _ _ _ location => location
  | _ => Location.origin

/- The name of a variable or of a prototype. -/
def givenName? :
    Node →
    Option Value
  | reference name _ _ => some name
  | prototype name _ _ _ => some name
  | _ => none

/- The name of a variable, a prototype or a program. -/
def name? :
    Node →
    Option Value
  | reference name _ _ => some name
  | prototype name _ _ _ => some name
  | program name _ => some (.text name)
  | _ => none

/- The arguments of a call or of a prototype. -/
def args? :
    Node →
    Option (List Node)
  | call _ args _ => some args
  | prototype _ _ args _ => some args
  | _ => none

/- The nodes of a block or of a program. -/
def nodes? :
    Node →
    Option (List Node)
  | program _ nodes => some nodes
  | block nodes => some nodes
  | _ => none

/- The parts of a node that are nodes, in source order. -/
def children :
    Node →
    List Node
  | absent | plain _ | float _ | reference .. => []
  | unary _ operand => [operand]
  | binary _ lhs rhs _ => [lhs, rhs]
  | call _ args _ => args
  | branch cond yes no _ => [cond, yes, no]
  | loop _ first last step body => [first, last, step, body]
  | declare names _ body => names.map Prod.snd ++ [body]
  | prototype _ _ args _ => args
  | function proto body => [proto, body]
  | ret value => [value]
  | program _ nodes => nodes
  | block nodes => nodes

end Offside.Node

------------------------------------------------------------
-- All Nodes of a Tree
------------------------------------------------------------

namespace Offside.Node

mutual

/- The nodes of a tree, each before its children. -/
def preorder :
    Node →
    List Node
  | absent => []
  | plain location => [plain location]
  | float value => [float value]
  | reference name type location => [reference name type location]
  | unary op operand => unary op operand :: preorder operand
  | binary op lhs rhs location =>
      binary op lhs rhs location :: preorder lhs ++ preorder rhs
  | call callee args location =>
      call callee args location :: preorderAll args
  | branch cond yes no location =>
      branch cond yes no location ::
        preorder cond ++ preorder yes ++ preorder no
  | loop counter first last step body =>
      loop counter first last step body ::
        preorder first ++ preorder last ++ preorder step
          ++ preorder body
  | declare names type body =>
      declare names type body :: preorderNamed names ++ preorder body
  | prototype name type args line =>
      prototype name type args line :: preorderAll args
  | function proto body =>
      function proto body :: preorder proto ++ preorder body
  | ret value => ret value :: preorder value
  | program name nodes => program name nodes :: preorderAll nodes
  | block nodes => block nodes :: preorderAll nodes

/- The nodes of several trees. -/
def preorderAll :
    List Node →
    List Node
  | [] => []
  | node :: nodes => preorder node ++ preorderAll nodes

/- The nodes of the initial values of a declaration. -/
def preorderNamed :
    List (Value × Node) →
    List Node
  | [] => []
  | (_, node) :: names => preorder node ++ preorderNamed names

end

end Offside.Node
