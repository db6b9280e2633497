import Offside.Outline.Basic

/-
  Building outlines: a walk over a syntax tree that leaves the
  outline of each node on a stack.

  Key definitions include:
    * `Offside.Outlining`
    * `Offside.Outlining.visit`
    * `Offside.Outlining.ofTree`

  A node that is no form of the language leaves nothing on the
  stack and a line in the output.
-/

------------------------------------------------------------
-- The Stack
------------------------------------------------------------

namespace Offside

/- Why a tree has no outline. -/
inductive OutlineError where
  | prototype
  | declaration
  | emptyStack
  | missingPart
  deriving DecidableEq, Repr

namespace OutlineError

/- The text of the error. -/
def message :
    OutlineError →
    String
  | prototype => "Visitor method not necessary"
  | declaration => "Variable declaration will be changed soon."
  | emptyStack => "pop from empty list"
  | missingPart => "a node lacks a part"

end OutlineError

/- Outlines from the last one down, and what was printed. -/
structure OutlineState where
  stack : List Outline
  printed : String

/- A step of building outlines. -/
abbrev Outlining := EStateM OutlineError OutlineState

/- The line for a node that is no form of the language. -/
def unknownNodeLine : String := "Fail to downcasting ExprAST.\n"

namespace Outlining

/- The state before the walk. -/
def start : OutlineState := ⟨[], ""⟩

/- Puts an outline on the stack. -/
def push
    (outline : Outline) :
    Outlining Unit :=
  modify fun s => { s with stack := outline :: s.stack }

/- Takes the last outline off the stack. -/
def pop : Outlining Outline := fun s =>
  match s.stack with
  | [] => .error .emptyStack s
  | outline :: stack => .ok outline { s with stack := stack }

/- Adds to what is printed. -/
def print
    (line : String) :
    Outlining Unit :=
  modify fun s => { s with printed := s.printed ++ line }

/- Runs a visit and takes what it has left on the stack. -/
def taking
    (visit : Outlining Unit) :
    Outlining Outline := do
  visit
  pop

end Outlining

end Offside

------------------------------------------------------------
-- The Walk
------------------------------------------------------------

namespace Offside.Outlining

mutual

/- Visits a node. -/
def visit :
    Node →
    Outlining Unit
  | .absent | .plain _ => print unknownNodeLine
  | .float value => push (.ofLiteral value)
  | .reference name type _ => push (.ofVariable name type)
  | .unary op operand => do
      let operand ← taking (visit operand)
      push (.ofUnary op operand)
  | .binary op lhs rhs _ => do
      let lhs ← taking (visit lhs)
      let rhs ← taking (visit rhs)
      push (.ofBinary op lhs rhs)
  | .call callee args _ => do
      let args ← visitAll args
      push (.ofCall callee args)
  | .branch cond yes no _ => do
      let cond ← taking (visit cond)
      let yes ← taking (visit yes)
      let no ← (if no.isPresent then taking (visit no)
        else pure (.list []))
      push (.ofBranch cond yes no)
  | .loop _ first last step body => do
      let first ← taking (visit first)
      let last ← taking (visit last)
      let step ← taking (visit step)
      let body ← taking (visit body)
      push (.ofLoop first last step body)
  | .declare .. => throw .declaration
  | .prototype .. => throw .prototype
  | .function (.prototype name _ args _) body => do
      let args ← visitAll args
      let body ← taking (visit body)
      push (.ofFunction name args body)
  | .function (.call _ args _) body => do
      let _ ← visitAll args
      let _ ← taking (visit body)
      throw .missingPart
  | .function _ _ => throw .missingPart
  | .ret value => do
      let value ← taking (visit value)
      push (.ofReturned value)
  | .program name nodes => do
      let nodes ← visitAll nodes
      push (.ofProgram name nodes)
  | .block nodes => do
      let nodes ← visitAll nodes
      push (.list nodes)

/- Visits nodes one after another and takes their outlines. -/
def visitAll :
    List Node →
    Outlining (List Outline)
  | [] => return []
  | node :: nodes => do
      let outline ← taking (visit node)
      let outlines ← visitAll nodes
      return outline :: outlines

end

/- The outline of the nodes of a block or of a program. -/
def ofTree
    (tree : Node) :
    Outlining Outline :=
  match tree.nodes? with
  | none => throw .missingPart
  | some nodes =>
      taking (do
        let outlines ← visitAll nodes
        push (.list outlines))

end Offside.Outlining
