import Offside.Token.Basic

/-
  Precedence tables: how tightly each binary operator binds.

  Key definitions include:
    * `Offside.Precedence`
    * `Offside.Precedence.of`
    * `Offside.Precedence.set`

  A token is looked up by its value, whatever its kind.
-/

------------------------------------------------------------
-- Precedence Tables
------------------------------------------------------------

namespace Offside

/- Operators and how tightly they bind. -/
structure Precedence where
  entries : List (String × Int)
  deriving DecidableEq, Repr

namespace Precedence

/- The operators of the language. -/
def default : Precedence :=
  ⟨[("=", 2), ("<", 10), (">", 10), ("+", 20), ("-", 20), ("*", 40)]⟩

/- How tightly a token of that value binds; others do not bind. -/
def of
    (table : Precedence)
    (value : Value) :
    Int :=
  match value with
  | .text operator => (table.entries.lookup operator).getD (-1)
  | .amount _ => -1

/- Gives an operator its precedence. -/
def set
    (table : Precedence)
    (operator : String)
    (precedence : Int) :
    Precedence :=
  ⟨(operator, precedence) ::
    table.entries.filter fun entry => entry.1 ≠ operator⟩

end Precedence

end Offside
