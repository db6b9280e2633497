import Offside.Number.Amount
import Offside.Text.Quoted

/-
  Tokens: their kinds, the values they carry, and where they
  were found.

  Key definitions include:
    * `Offside.Location`
    * `Offside.Value`
    * `Offside.Kind`
    * `Offside.Token`

  Two tokens are equal when kind and value are; the location
  does not count.
-/

------------------------------------------------------------
-- Locations
------------------------------------------------------------

namespace Offside

/- A place in a text: lines and columns already read. -/
structure Location where
  line : Nat
  column : Nat
  deriving DecidableEq, Repr, Inhabited

namespace Location

/- The beginning of a text. -/
def origin : Location := ⟨0, 0⟩

/-
  The location after one more reading.  A line break starts a
  new line; any other character, and the end of the text, takes
  one column.
-/
def after
    (location : Location)
    (c : Option Char) :
    Location :=
  if c = some '\n' ∨ c = some '\r' then ⟨location.line + 1, 0⟩
  else { location with column := location.column + 1 }

end Location

end Offside

------------------------------------------------------------
-- Values
------------------------------------------------------------

namespace Offside

/- What a token carries: a text or an amount. -/
inductive Value where
  | text (s : String)
  | amount (a : Amount)
  deriving DecidableEq, Repr

namespace Value

/- Equality of values; a text never equals an amount. -/
def same :
    Value →
    Value →
    Bool
  | text s, text t => s = t
  | amount a, amount b => a.same b
  | _, _ => false

/- The value as plain text. -/
def shown :
    Value →
    String
  | text s => s
  | amount a => a.text

/- The value with texts in quotes. -/
def quoted :
    Value →
    String
  | text s => Text.quoted s
  | amount a => a.text

end Value

end Offside

------------------------------------------------------------
-- Kinds
------------------------------------------------------------

namespace Offside

/- The kinds of token. -/
inductive Kind where
  | endOfText
  | kwFunction
  | kwExtern
  | kwReturn
  | identifier
  | floatLiteral
  | kwIf
  | kwThen
  | kwElse
  | kwFor
  | kwIn
  | binaryOp
  | unaryOp
  | operator
  | kwVar
  | kwConst
  | indent
  | dedent
  | unset
  deriving DecidableEq, Repr

namespace Kind

/- The number of a kind. -/
def code :
    Kind →
    Int
  | endOfText => -1
  | kwFunction => -2
  | kwExtern => -3
  | kwReturn => -4
  | identifier => -10
  | floatLiteral => -11
  | kwIf => -20
  | kwThen => -21
  | kwElse => -22
  | kwFor => -23
  | kwIn => -24
  | binaryOp => -30
  | unaryOp => -31
  | operator => -32
  | kwVar => -40
  | kwConst => -41
  | indent => -50
  | dedent => -51
  | unset => -9999

/- The name of a kind; the others go by their value. -/
def title? :
    Kind →
    Option String
  | endOfText => some "eof"
  | kwFunction => some "function"
  | kwReturn => some "return"
  | kwExtern => some "extern"
  | identifier => some "identifier"
  | indent => some "indent"
  | floatLiteral => some "float"
  | kwIf => some "if"
  | kwThen => some "then"
  | kwElse => some "else"
  | kwFor => some "for"
  | kwIn => some "in"
  | kwVar => some "var"
  | kwConst => some "const"
  | binaryOp | unaryOp | operator | dedent | unset => none

/- The words that are not identifiers. -/
def keywords : List (String × Kind) :=
  [("fn", kwFunction), ("extern", kwExtern), ("return", kwReturn),
   ("if", kwIf), ("then", kwThen), ("else", kwElse), ("for", kwFor),
   ("in", kwIn), ("var", kwVar), ("const", kwConst)]

/- The kind of a word. -/
def ofWord
    (word : String) :
    Kind :=
  (keywords.lookup word).getD identifier

end Kind

end Offside

------------------------------------------------------------
-- Tokens
------------------------------------------------------------

namespace Offside

/- A token and the location up to which it was read. -/
structure Token where
  kind : Kind
  value : Value
  location : Location := Location.origin
  deriving DecidableEq, Repr

namespace Token

/- What a list shows before its first token was taken. -/
def unset : Token := { kind := .unset, value := .text "" }

/- Equality of kind and value. -/
def same
    (t u : Token) :
    Bool :=
  t.kind = u.kind && t.value.same u.value

/- Whether the token is the operator of that text. -/
def isOperator
    (t : Token)
    (s : String) :
    Bool :=
  t.kind = .operator && t.value = .text s

/- The name of a token. -/
def name
    (t : Token) :
    String :=
  t.kind.title?.getD t.value.shown

/- The value in parentheses, for the kinds that have one. -/
def shownValue
    (t : Token) :
    String :=
  match t.kind with
  | .identifier | .indent | .floatLiteral =>
      "(" ++ t.value.shown ++ ")"
  | _ => ""

/- The token as it is listed. -/
def text
    (t : Token) :
    String :=
  t.name ++ t.shownValue

end Token

end Offside
