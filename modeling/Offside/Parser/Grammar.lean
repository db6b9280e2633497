import Offside.Parser.Production

/-
  The grammar: the productions, each with an allowance of how
  many productions may be nested.

  Key definitions include:
    * `Offside.Grammar.expression`
    * `Offside.Grammar.block`
    * `Offside.Grammar.items`
    * `Offside.Grammar.allowance`

  Every cycle of productions takes a token, and no cycle is
  longer than five, so that five for each token suffice.
-/

------------------------------------------------------------
-- Nested Productions
------------------------------------------------------------

namespace Offside.Grammar

open Parse (Parts)

mutual

/- A primary expression. -/
def primary
    (table : Precedence) :
    Nat →
    Parse Node
  | 0 => throw .tooDeep
  | n + 1 =>
      Parse.primary
        { expression := expression table n
          arguments := arguments table n
          bindings := bindings table n
          block := block table n
          primary := primary table n }

/- An operand. -/
def unary
    (table : Precedence) :
    Nat →
    Parse Node
  | 0 => throw .tooDeep
  | n + 1 => Parse.unary (primary table n) (unary table n)

/- What follows an operand. -/
def binaryRest
    (table : Precedence) :
    Nat →
    Int →
    Node →
    Parse Node
  | 0, _, _ => throw .tooDeep
  | n + 1, least, lhs =>
      Parse.binaryRest table (unary table n) (binaryRest table n)
        least lhs

/- An expression. -/
def expression
    (table : Precedence) :
    Nat →
    Parse Node
  | 0 => throw .tooDeep
  | n + 1 => Parse.expression (unary table n) (binaryRest table n)

/- The arguments of a call. -/
def arguments
    (table : Precedence) :
    Nat →
    Parse (List Node)
  | 0 => throw .tooDeep
  | n + 1 => Parse.arguments (expression table n) (arguments table n)

/- The names of a declaration. -/
def bindings
    (table : Precedence) :
    Nat →
    Parse (List (Value × Node))
  | 0 => throw .tooDeep
  | n + 1 => Parse.bindings (expression table n) (bindings table n)

/- The lines of a block. -/
def lines
    (table : Precedence) :
    Nat →
    Amount →
    Parse (List Node)
  | 0, _ => throw .tooDeep
  | n + 1, indent =>
      Parse.lines (expression table n) (lines table n) indent

/- A block. -/
def block
    (table : Precedence) :
    Nat →
    Parse Node
  | 0 => throw .tooDeep
  | n + 1 => Parse.block (lines table n)

end

/- The items of a program. -/
def items
    (table : Precedence) :
    Nat →
    Parse (List Node)
  | 0 => throw .tooDeep
  | n + 1 =>
      Parse.items (expression table n) (block table n) (items table n)

end Offside.Grammar

------------------------------------------------------------
-- Allowance
------------------------------------------------------------

namespace Offside.Grammar

/- How many productions tokens of that number can nest. -/
def allowance
    (tokens : Nat) :
    Nat :=
  5 * tokens + 8

/- Runs a production with the allowance of the tokens left. -/
def run
    {α : Type}
    (production : Nat → Parse α) :
    Parse α :=
  fun s => production (allowance s.rest.length) s

end Offside.Grammar
