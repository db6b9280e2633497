import Mathlib
import Offside.Proofs.Layout.Row

/-
  Programs as they are written: their trees, and the rows of
  their texts.

  Key definitions include:
    * `Offside.Phrase`
    * `Offside.Statement`, `Offside.Suite`
    * `Offside.Item`
    * `Offside.Program`
    * `Offside.Program.node`, `Offside.Program.rows`

  Blocks are not empty, conditions have both their blocks, and
  every operator between two operands stands in parentheses.
-/

------------------------------------------------------------
-- Keywords and Symbols
------------------------------------------------------------

namespace Offside

/- The keywords of programs. -/
inductive Keyword where
  | external
  | function
  | returned
  | condition
  | otherwise
  | loop
  | within
  deriving DecidableEq, Repr

namespace Keyword

/- The word of a keyword. -/
def word :
    Keyword →
    Word
  | external =>
      ⟨'e', ['x', 't', 'e', 'r', 'n'], by decide, by decide⟩
  | function => ⟨'f', ['n'], by decide, by decide⟩
  | returned =>
      ⟨'r', ['e', 't', 'u', 'r', 'n'], by decide, by decide⟩
  | condition => ⟨'i', ['f'], by decide, by decide⟩
  | otherwise => ⟨'e', ['l', 's', 'e'], by decide, by decide⟩
  | loop => ⟨'f', ['o', 'r'], by decide, by decide⟩
  | within => ⟨'i', ['n'], by decide, by decide⟩

/- The kind of its token. -/
def kind :
    Keyword →
    Kind
  | external => .kwExtern
  | function => .kwFunction
  | returned => .kwReturn
  | condition => .kwIf
  | otherwise => .kwElse
  | loop => .kwFor
  | within => .kwIn

/- The token of a keyword. -/
def token
    (k : Keyword) :
    Token :=
  Token.keyword k.kind k.word.text

/- The keyword as a piece. -/
def piece
    (k : Keyword) :
    Piece :=
  .word k.word

end Keyword

namespace Symbol

/- An opening parenthesis. -/
def opening : Symbol :=
  ⟨'(', by decide, by decide, by decide, by decide⟩

/- A closing parenthesis. -/
def closing : Symbol :=
  ⟨')', by decide, by decide, by decide, by decide⟩

/- A comma. -/
def comma : Symbol :=
  ⟨',', by decide, by decide, by decide, by decide⟩

/- A colon. -/
def colon : Symbol :=
  ⟨':', by decide, by decide, by decide, by decide⟩

/- An equals sign. -/
def equals : Symbol :=
  ⟨'=', by decide, by decide, by decide, by decide⟩

end Symbol

/- A symbol that can stand before an operand. -/
structure Sign where
  symbol : Symbol
  notOpening : symbol.char ≠ '('
  notClosing : symbol.char ≠ ')'
  notComma : symbol.char ≠ ','

/- The operators that stand between two operands. -/
inductive Operator where
  | assign
  | less
  | greater
  | plus
  | minus
  | times
  deriving DecidableEq, Repr

/- The symbol of an operator. -/
def Operator.symbol :
    Operator →
    Symbol
  | assign => Symbol.equals
  | less => ⟨'<', by decide, by decide, by decide, by decide⟩
  | greater => ⟨'>', by decide, by decide, by decide, by decide⟩
  | plus => ⟨'+', by decide, by decide, by decide, by decide⟩
  | minus => ⟨'-', by decide, by decide, by decide, by decide⟩
  | times => ⟨'*', by decide, by decide, by decide, by decide⟩

/- A name as a piece. -/
def Name.piece
    (x : Name) :
    Piece :=
  .word x.word

/- The value of a name. -/
def Name.value
    (x : Name) :
    Value :=
  .text x.word.text

/- The variable of a name. -/
def Name.node
    (x : Name) :
    Node :=
  .reference x.value Node.floatType Location.origin

end Offside

------------------------------------------------------------
-- Phrases
------------------------------------------------------------

namespace Offside

/- An expression of a program. -/
inductive Phrase where
  | literal (l : Literal)
  | named (x : Name)
  | call (f : Name) (args : List Phrase)
  | signed (sign : Sign) (operand : Phrase)
  | applied (op : Operator) (lhs rhs : Phrase)

namespace Phrase

mutual

/- The tree of a phrase. -/
def node :
    Phrase →
    Node
  | literal l => .float l.value
  | named x => x.node
  | call f args => .call f.value (nodes args) Location.origin
  | signed sign operand =>
      .unary (.text sign.symbol.text) (node operand)
  | applied op lhs rhs =>
      .binary (.text op.symbol.text) (node lhs) (node rhs)
        Location.origin

/- The trees of several phrases. -/
def nodes :
    List Phrase →
    List Node
  | [] => []
  | e :: es => node e :: nodes es

end

mutual

/- The pieces of a phrase. -/
def pieces :
    Phrase →
    List Piece
  | literal l => [.number l]
  | named x => [x.piece]
  | call f args =>
      f.piece :: .symbol Symbol.opening ::
        piecesOfArgs args ++ [.symbol Symbol.closing]
  | signed sign operand => .symbol sign.symbol :: pieces operand
  | applied op lhs rhs =>
      .symbol Symbol.opening ::
        (pieces lhs ++ .symbol op.symbol :: pieces rhs) ++
        [.symbol Symbol.closing]

/- The pieces of arguments, with commas between them. -/
def piecesOfArgs :
    List Phrase →
    List Piece
  | [] => []
  | [e] => pieces e
  | e :: e' :: es =>
      pieces e ++ .symbol Symbol.comma :: piecesOfArgs (e' :: es)

end

theorem pieces_ne_nil
    (e : Phrase) :
    e.pieces ≠ [] := by
  cases e <;> simp [pieces]

end Phrase

end Offside

------------------------------------------------------------
-- Statements and Suites
------------------------------------------------------------

namespace Offside

mutual

/- A statement. -/
inductive Statement where
  | phrase (e : Phrase)
  | returned (e : Phrase)
  | branch (cond : Phrase) (yes no : Suite)
  | loop (x : Name) (first last step body : Phrase)

/- The statements of a block, one at least. -/
inductive Suite where
  | last (s : Statement)
  | more (s : Statement) (others : Suite)

end

mutual

/- The tree of a statement. -/
def Statement.node :
    Statement →
    Node
  | .phrase e => e.node
  | .returned e => .ret e.node
  | .branch cond yes no =>
      .branch cond.node (.block yes.nodes) (.block no.nodes)
        Location.origin
  | .loop x first last step body =>
      .loop x.value first.node last.node step.node
        (.block [body.node])

/- The trees of the statements of a suite. -/
def Suite.nodes :
    Suite →
    List Node
  | .last s => [s.node]
  | .more s others => s.node :: others.nodes

end

mutual

/- The rows of a statement at a depth of nesting. -/
def Statement.rows
    (depth : Nat) :
    Statement →
    List Row
  | .phrase e => [⟨depth, e.pieces, e.pieces_ne_nil⟩]
  | .returned e =>
      [⟨depth, Keyword.returned.piece :: e.pieces, by simp⟩]
  | .branch cond yes no =>
      ⟨depth, Keyword.condition.piece :: cond.pieces ++
          [.symbol Symbol.colon], by simp⟩ ::
        yes.rows (depth + 1) ++
      ⟨depth, [Keyword.otherwise.piece, .symbol Symbol.colon],
          by simp⟩ ::
        no.rows (depth + 1)
  | .loop x first last step body =>
      [⟨depth, Keyword.loop.piece :: x.piece ::
          .symbol Symbol.equals :: first.pieces ++
          .symbol Symbol.comma :: last.pieces ++
          .symbol Symbol.comma :: step.pieces ++
          Keyword.within.piece :: body.pieces, by simp⟩]

/- The rows of a suite. -/
def Suite.rows
    (depth : Nat) :
    Suite →
    List Row
  | .last s => s.rows depth
  | .more s others => s.rows depth ++ others.rows depth

end

end Offside

------------------------------------------------------------
-- Items and Programs
------------------------------------------------------------

namespace Offside

/- The name and the parameters of a function. -/
structure Signature where
  name : Name
  params : List Name

namespace Signature

/- The prototype of a signature. -/
def node
    (s : Signature) :
    Node :=
  .prototype s.name.value Node.floatType (s.params.map Name.node) 0

/- The pieces of parameters, with commas between them. -/
def piecesOfParams :
    List Name →
    List Piece
  | [] => []
  | [x] => [x.piece]
  | x :: y :: xs =>
      x.piece :: .symbol Symbol.comma :: piecesOfParams (y :: xs)

/- The pieces of a signature. -/
def pieces
    (s : Signature) :
    List Piece :=
  s.name.piece :: .symbol Symbol.opening ::
    piecesOfParams s.params ++ [.symbol Symbol.closing]

end Signature

/- An item of a program. -/
inductive Item where
  | external (signature : Signature)
  | function (signature : Signature) (body : Suite)

namespace Item

/- The tree of an item. -/
def node :
    Item →
    Node
  | external signature => signature.node
  | function signature body =>
      .function signature.node (.block body.nodes)

/- The rows of an item. -/
def rows :
    Item →
    List Row
  | external signature =>
      [⟨0, Keyword.external.piece :: signature.pieces, by simp⟩]
  | function signature body =>
      ⟨0, Keyword.function.piece :: signature.pieces ++
          [.symbol Symbol.colon], by simp⟩ ::
        body.rows 1

end Item

/- A program. -/
structure Program where
  items : List Item

namespace Program

/- The tree of a program of that name. -/
def node
    (program : Program)
    (name : String) :
    Node :=
  .program name (program.items.map Item.node)

/- The rows of a program. -/
def rows
    (program : Program) :
    List Row :=
  program.items.flatMap Item.rows

/- The text of a program, with so many blanks for a level. -/
def text
    (spacing : Spacing)
    (width : Nat)
    (program : Program) :
    String :=
  Row.write spacing width program.rows

end Program

end Offside
