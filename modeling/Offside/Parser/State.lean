import Offside.Node.Basic
import Offside.Token.List

/-
  The state of a parser, the errors it reports, and its
  elementary steps.

  Key definitions include:
    * `Offside.ParseError`
    * `Offside.ParseState`
    * `Offside.Parse`
    * `Offside.Parse.advance`

  A failed parser leaves its state as it was at the failure.
-/

------------------------------------------------------------
-- Errors
------------------------------------------------------------

namespace Offside

/- What a production expected to find. -/
inductive Expectation where
  | closingParenthesis
  | argumentSeparator
  | loopCounter
  | loopAssignment
  | loopSeparator
  | loopIn
  | declaredName
  | declaredNames
  | declarationIn
  | functionName
  | openParameters
  | closeParameters
  | functionColon
  deriving DecidableEq, Repr

namespace Expectation

/- The text of an expectation. -/
def text :
    Expectation →
    String
  | closingParenthesis => "')'"
  | argumentSeparator => "')' or ',' in argument list"
  | loopCounter => "identifier after for"
  | loopAssignment => "'=' after for"
  | loopSeparator => "',' after for start value"
  | loopIn => "'in' after for"
  | declaredName => "identifier after var"
  | declaredNames => "identifier list after var"
  | declarationIn => "'in' keyword after 'var'"
  | functionName => "function name in prototype"
  | openParameters => "'(' in the function definition."
  | closeParameters => "')' in the function definition."
  | functionColon => "':' in the function definition"

end Expectation

/-
  Why a program is not parsed.  The last cause is that the
  allowance of nested productions is used up.
-/
inductive ParseError where
  | endOfTokens
  | incomparable (comparison : String) (level : Amount)
  | noNewBlock
  | deeperIndentation
  | unknownToken (name : String)
  | missingColon (keyword : String) (found : String)
  | expected (what : Expectation)
  | tooDeep
  deriving DecidableEq, Repr

namespace ParseError

/- The text of the error. -/
def message :
    ParseError →
    String
  | endOfTokens => TokenListError.message .pastTheEnd
  | incomparable comparison level =>
      "'" ++ comparison ++ "' not supported between instances of 'str' and '"
        ++ level.kindName ++ "'"
  | noNewBlock => "ParserError: There is no new block to be parsed."
  | deeperIndentation => "ParserError: Indentation not allowed here."
  | unknownToken name =>
      "Parser: Unknown token when expecting an expression:'" ++ name ++ "'."
  | missingColon keyword found =>
      "Parser: `" ++ keyword ++ "` statement expected ':', received: '"
        ++ found ++ "'."
  | expected what => "Parser: Expected " ++ what.text
  | tooDeep => "Parser: Program nested too deeply."

end ParseError

end Offside

------------------------------------------------------------
-- States and Steps
------------------------------------------------------------

namespace Offside

/-
  The current token, the tokens after it, and the level of
  indentation.
-/
structure ParseState where
  current : Token
  rest : List Token
  level : Amount
  deriving DecidableEq, Repr

/- A step of parsing, with the state it leaves behind. -/
abbrev Parse := EStateM ParseError ParseState

namespace Parse

/- The current token. -/
def current : Parse Token := do
  return (← get).current

/- Takes the next token. -/
def advance : Parse Unit := fun s =>
  match s.rest with
  | [] => .error .endOfTokens s
  | t :: ts => .ok () { s with current := t, rest := ts }

/- Whether the current token is the operator of that text. -/
def atOperator
    (operator : String) :
    Parse Bool := do
  return (← current).isOperator operator

/- Whether the current token is of that kind. -/
def atKind
    (kind : Kind) :
    Parse Bool := do
  return (← current).kind = kind

/- The current token has to be the operator of that text. -/
def expectOperator
    (operator : String)
    (what : Expectation) :
    Parse Unit := do
  unless ← atOperator operator do
    throw (.expected what)

/- The current token has to be of that kind. -/
def expectKind
    (kind : Kind)
    (what : Expectation) :
    Parse Unit := do
  unless ← atKind kind do
    throw (.expected what)

/- Sets the level of indentation. -/
def setLevel
    (level : Amount) :
    Parse Unit :=
  modify fun s => { s with level := level }

end Parse

end Offside
