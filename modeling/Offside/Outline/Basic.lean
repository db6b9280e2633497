import Offside.Node.Basic

/-
  Outlines: the value that shows a syntax tree, made of texts,
  lists and maps whose entries have an order.

  Key definitions include:
    * `Offside.Outline`
    * `Offside.Outline.isEmpty`
-/

------------------------------------------------------------
-- Outlines
------------------------------------------------------------

namespace Offside

/- A text, a list of outlines, or named outlines in order. -/
inductive Outline where
  | text (s : String)
  | list (items : List Outline)
  | map (entries : List (String × Outline))
  deriving Repr

namespace Outline

instance : Inhabited Outline := ⟨list []⟩

/- Whether there is nothing to show. -/
def isEmpty :
    Outline →
    Bool
  | text s => s.isEmpty
  | list items => items.isEmpty
  | map entries => entries.isEmpty

/- A name with brackets around what it is about. -/
def tag
    (name content : String) :
    String :=
  name ++ "[" ++ content ++ "]"

/- The outline of a literal. -/
def ofLiteral
    (value : Value) :
    Outline :=
  text (tag "FLOAT" value.shown)

/- The outline of a variable: its name and type in quotes. -/
def ofVariable
    (name : Value)
    (type : String) :
    Outline :=
  text (tag "VARIABLE"
    ("(" ++ name.quoted ++ ", " ++ Text.quoted type ++ ")"))

/- The outline of an operator before its operand. -/
def ofUnary
    (op : Value)
    (operand : Outline) :
    Outline :=
  map [(tag "UNARY" op.shown, operand)]

/- The outline of an operator between its operands. -/
def ofBinary
    (op : Value)
    (lhs rhs : Outline) :
    Outline :=
  map [(tag "BINARY" op.shown, map [("lhs", lhs), ("rhs", rhs)])]

/- The outline of a call. -/
def ofCall
    (callee : Value)
    (args : List Outline) :
    Outline :=
  map [(tag "CALL" callee.shown, map [("args", list args)])]

/- The outline of a branch; an empty second block is left out. -/
def ofBranch
    (cond yes no : Outline) :
    Outline :=
  map [("IF-STMT",
    map ([("CONDITION", cond), ("THEN", yes)]
      ++ if no.isEmpty then [] else [("ELSE", no)]))]

/- The outline of a loop. -/
def ofLoop
    (first last step body : Outline) :
    Outline :=
  map [("FOR-STMT",
    map [("start", first), ("end", last), ("step", step),
      ("body", body)])]

/- The outline of a function. -/
def ofFunction
    (name : Value)
    (args : List Outline)
    (body : Outline) :
    Outline :=
  map [(tag "FUNCTION" name.shown,
    map [("args", list args), ("body", body)])]

/- The outline of a returned value. -/
def ofReturned
    (value : Outline) :
    Outline :=
  map [("RETURN", value)]

/- The outline of a program. -/
def ofProgram
    (name : String)
    (nodes : List Outline) :
    Outline :=
  map [(tag "MODULE" name, list nodes)]

end Outline

end Offside
