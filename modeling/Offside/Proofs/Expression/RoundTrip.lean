import Mathlib
import Offside.Proofs.Expression.Climbing

/-
  Printing an expression and parsing it again, for every table
  of precedences.

  Key definitions include:
    * `Offside.Node.IsExpression`
    * `Offside.Node.spelling`
    * `Offside.Node.printed`

  Main statement:
    * `Offside.Parser.parseForm_printed`: the tokens of an
      expression, with parentheses only where they are needed,
      are parsed to that expression, and the parser stops at
      the token after them.
-/

------------------------------------------------------------
-- Parentheses Where They Are Needed
------------------------------------------------------------

namespace Offside.Spelling

/- Puts an expression with an operator at its top in parentheses. -/
def enclosed :
    Spelling →
    Spelling
  | infixed op lhs rhs => grouped (infixed op lhs rhs)
  | e => e

/-
  Puts an expression in parentheses when the operator at its
  top binds less tightly than `least`.
-/
def fitted
    (table : Precedence)
    (least : Int) :
    Spelling →
    Spelling
  | infixed op lhs rhs =>
      if table.of op < least then grouped (infixed op lhs rhs)
      else infixed op lhs rhs
  | e => e

variable {table : Precedence}

@[simp] theorem node_enclosed
    (e : Spelling) :
    e.enclosed.node = e.node := by
  cases e <;> simp [enclosed, node]

theorem isOperand_enclosed
    (e : Spelling) :
    e.enclosed.IsOperand := by
  cases e <;> simp [enclosed, IsOperand]

theorem Fits.enclosed
    {e : Spelling}
    (hFits : e.Fits table 0) :
    e.enclosed.Fits table 0 := by
  cases e <;> exact hFits

@[simp] theorem node_fitted
    (least : Int)
    (e : Spelling) :
    (e.fitted table least).node = e.node := by
  cases e with
  | infixed op lhs rhs =>
      by_cases hLoose : table.of op < least
      · simp [fitted, hLoose, node]
      · simp [fitted, hLoose]
  | _ => rfl

theorem Fits.fitted
    {e : Spelling}
    (hFits : e.Fits table 0)
    (least : Int) :
    (e.fitted table least).Fits table least := by
  cases e with
  | infixed op lhs rhs =>
      by_cases hLoose : table.of op < least
      · simp only [Spelling.fitted, hLoose, if_true]
        exact hFits
      · simp only [Spelling.fitted, hLoose, if_false]
        exact ⟨hFits.1, not_lt.mp hLoose, hFits.2.2⟩
  | _ => exact hFits

end Offside.Spelling

------------------------------------------------------------
-- Expressions and Their Tokens
------------------------------------------------------------

namespace Offside.Node

mutual

/-
  The trees of expressions: numbers, variables, calls, prefix
  operators, and operators that have a precedence.
-/
def IsExpression
    (table : Precedence) :
    Node →
    Prop
  | float _ => True
  | reference _ type _ => type = floatType
  | call _ args _ => AllExpressions table args
  | unary op operand =>
      Spelling.IsPrefix op ∧ IsExpression table operand
  | binary op lhs rhs _ =>
      0 ≤ table.of op ∧ IsExpression table lhs ∧
        IsExpression table rhs
  | _ => False

/- Whether all of several trees are expressions. -/
def AllExpressions
    (table : Precedence) :
    List Node →
    Prop
  | [] => True
  | node :: nodes =>
      IsExpression table node ∧ AllExpressions table nodes

end

mutual

/-
  How an expression is written.  There are parentheses around
  a left operand that binds less tightly than its operator, a
  right operand that binds no more tightly, and an operand of
  a prefix operator that has an operator of its own at the top.
-/
def spelling
    (table : Precedence) :
    Node →
    Spelling
  | float value => .number value
  | reference name _ _ => .name name
  | call callee args _ => .call callee (spellings table args)
  | unary op operand =>
      .prefixed op (spelling table operand).enclosed
  | binary op lhs rhs _ =>
      .infixed op
        ((spelling table lhs).fitted table (table.of op))
        ((spelling table rhs).fitted table (table.of op + 1))
  | _ => .number (.text "")

/- How several expressions are written. -/
def spellings
    (table : Precedence) :
    List Node →
    List Spelling
  | [] => []
  | node :: nodes => spelling table node :: spellings table nodes

end

/- The tokens of an expression. -/
def printed
    (table : Precedence)
    (tree : Node) :
    List Token :=
  (tree.spelling table).tokens

mutual

/- The spelling of an expression stands for it. -/
theorem node_spelling
    {table : Precedence}
    (tree : Node)
    (hTree : tree.IsExpression table) :
    (tree.spelling table).node = tree.unlocated := by
  cases tree
  case float value => rfl
  case reference name type location =>
      obtain rfl : type = floatType := hTree
      rfl
  case call callee args location =>
      simp only [spelling, Spelling.node, unlocated,
        nodes_spellings args hTree]
  case unary op operand =>
      simp only [spelling, Spelling.node, unlocated,
        Spelling.node_enclosed, node_spelling operand hTree.2]
  case binary op lhs rhs location =>
      simp only [spelling, Spelling.node, unlocated,
        Spelling.node_fitted, node_spelling lhs hTree.2.1,
        node_spelling rhs hTree.2.2]
  all_goals exact hTree.elim

theorem nodes_spellings
    {table : Precedence}
    (trees : List Node)
    (hTrees : AllExpressions table trees) :
    Spelling.nodes (spellings table trees) =
      unlocatedAll trees := by
  cases trees with
  | nil => rfl
  | cons tree trees =>
      simp only [spellings, Spelling.nodes, unlocatedAll,
        node_spelling tree hTrees.1, nodes_spellings trees hTrees.2]

end

mutual

/- The spelling of an expression has the parentheses it needs. -/
theorem fits_spelling
    {table : Precedence}
    (tree : Node)
    (hTree : tree.IsExpression table) :
    (tree.spelling table).Fits table 0 := by
  cases tree
  case float value => trivial
  case reference name type location => trivial
  case call callee args location => exact allFit_spellings args hTree
  case unary op operand =>
      exact ⟨hTree.1, Spelling.isOperand_enclosed _,
        (fits_spelling operand hTree.2).enclosed⟩
  case binary op lhs rhs location =>
      exact ⟨hTree.1, hTree.1,
        (fits_spelling lhs hTree.2.1).fitted _,
        (fits_spelling rhs hTree.2.2).fitted _⟩
  all_goals exact hTree.elim

theorem allFit_spellings
    {table : Precedence}
    (trees : List Node)
    (hTrees : AllExpressions table trees) :
    Spelling.AllFit table (spellings table trees) := by
  cases trees with
  | nil => trivial
  | cons tree trees =>
      exact ⟨fits_spelling tree hTrees.1,
        allFit_spellings trees hTrees.2⟩

end

end Offside.Node

------------------------------------------------------------
-- The Round Trip
------------------------------------------------------------

namespace Offside.Grammar

/-
  The tokens of an expression are parsed to that expression up
  to locations, and the parser stops before `t`.
-/
theorem expression_printed
    {table : Precedence}
    (hTable : table.Proper)
    {tree : Node}
    (hTree : tree.IsExpression table)
    {ts rest : List Token}
    {t : Token}
    (level : Amount)
    {n : Nat}
    (hPrinted : ts.map Token.unlocated = tree.printed table)
    (hNoCall : t.isOperator "(" = false)
    (hLoose : table.of t.value < 0)
    (hAllowed : 5 * ts.length + 1 ≤ n) :
    ∃ node, node.unlocated = tree.unlocated ∧
      expression table n (.before level (ts ++ t :: rest)) =
        .ok node ⟨t, rest, level⟩ := by
  apply (orderly table n).expression.lift
  have hLength : (tree.spelling table).tokens.length = ts.length := by
    have hSame := congrArg List.length hPrinted
    simpa [Node.printed] using hSame.symm
  rw [List.map_append, hPrinted, ← Node.node_spelling tree hTree]
  exact (Spelling.parsed hTable _).expression
    (Node.fits_spelling tree hTree) (by omega) hNoCall hLoose

end Offside.Grammar

namespace Offside.Parser

/-
  From a parser whose current token is the first one of a
  printed expression, parsing an expression gives it back, up
  to locations, whatever the table.  The parser then stands at
  the first token that follows, and nothing else has changed.
-/
theorem parseForm_printed
    (p : Parser)
    (tree : Node)
    (ts rest : List Token)
    (t : Token)
    (hTable : ∀ operator,
      0 ≤ p.table.of (.text operator) →
        operator ≠ "(" ∧ operator ≠ ")" ∧ operator ≠ ",")
    (hTree : tree.IsExpression p.table)
    (hPrinted : ts.map Token.unlocated = tree.printed p.table)
    (hTokens : p.tokens.current :: p.tokens.rest = ts ++ t :: rest)
    (hNoCall : t.isOperator "(" = false)
    (hLoose : p.table.of t.value < 0) :
    ∃ node p',
      p.parseForm .expression = (.ok node, p') ∧
      node.unlocated = tree.unlocated ∧
      p'.tokens.current = t ∧
      p'.tokens.rest = rest ∧
      p'.tokens.tokens = p.tokens.tokens ∧
      p'.level = p.level ∧
      p'.table = p.table := by
  have hProper : p.table.Proper :=
    { opening := not_le.mp fun h => (hTable "(" h).1 rfl
      closing := not_le.mp fun h => (hTable ")" h).2.1 rfl
      comma := not_le.mp fun h => (hTable "," h).2.2 rfl }
  have hLength : ts.length ≤ p.tokens.rest.length := by
    have hSame := congrArg List.length hTokens
    simp only [List.length_cons, List.length_append] at hSame
    omega
  have hAllowed :
      5 * ts.length + 1 ≤
        Grammar.allowance p.tokens.rest.length := by
    simp only [Grammar.allowance]
    omega
  rcases
      Grammar.expression_printed hProper hTree p.level hPrinted
        hNoCall hLoose hAllowed with
    ⟨node, hNode, hRun⟩
  rcases parseForm_ok .expression hTokens hRun with
    ⟨p', hParse, hAt⟩
  exact ⟨node, p', hParse, hNode, hAt⟩

/- An expression with operators of equal and of different precedence. -/
def sampleTree : Node :=
  .binary (.text "@")
    (.binary (.text "-")
      (.reference (.text "a") Node.floatType ⟨3, 1⟩)
      (.binary (.text "-")
        (.reference (.text "b") Node.floatType ⟨3, 6⟩)
        (.call (.text "f") [.unary (.text "-")
          (.float (.amount (.real Binary64.one)))] ⟨3, 10⟩)
        ⟨3, 8⟩)
      ⟨3, 3⟩)
    (.unary (.text "!")
      (.binary (.text "*")
        (.reference (.text "c") Node.floatType ⟨3, 20⟩)
        (.reference (.text "d") Node.floatType ⟨3, 22⟩)
        ⟨3, 21⟩))
    ⟨3, 18⟩

/- The parser before the tokens of the sample and the end of the text. -/
def sampleParser : Parser :=
  let table := Precedence.default.set "@" 20
  let tokens := sampleTree.printed table ++
    [{ kind := .endOfText, value := .text "", location := ⟨4, 0⟩ }]
  { table := table
    level := .whole 2
    tokens := ⟨tokens, 1, Token.identifier (.text "a")⟩ }

theorem parseForm_printed_sample :
    ∃ node p',
      sampleParser.parseForm .expression = (.ok node, p') ∧
      node.unlocated = sampleTree.unlocated ∧
      p'.tokens.rest = [] := by
  rcases
      parseForm_printed sampleParser sampleTree
        (sampleTree.printed sampleParser.table) []
        { kind := .endOfText, value := .text "", location := ⟨4, 0⟩ }
        (by
          intro operator hBinds
          refine ⟨?_, ?_, ?_⟩
          all_goals
            rintro rfl
            revert hBinds
            decide)
        (by
          simp only [sampleTree, Node.IsExpression,
            Node.AllExpressions, Spelling.IsPrefix]
          decide)
        (by decide) (by decide) (by decide) (by decide) with
    ⟨node, p', hParse, hNode, _, hRest, _⟩
  exact ⟨node, p', hParse, hNode, hRest⟩

end Offside.Parser
