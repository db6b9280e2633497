import Offside.Parser.Grammar

/-
  Parsers: a precedence table, a level of indentation and a
  token list, and the parsing of programs and of their parts.

  Key definitions include:
    * `Offside.Parser`
    * `Offside.Parser.run`
    * `Offside.Parser.parse`
-/

------------------------------------------------------------
-- Parsers
------------------------------------------------------------

namespace Offside

/- A parser between two productions. -/
structure Parser where
  table : Precedence
  level : Amount
  tokens : TokenList
  deriving DecidableEq, Repr

namespace Parser

/- A new parser on a token list. -/
def ofTokens
    (tokens : TokenList) :
    Parser :=
  ⟨Precedence.default, .whole 0, tokens⟩

/- A new parser. -/
def new : Parser := ofTokens (TokenList.ofTokens [])

/- Forgets tokens and level, but not the table. -/
def reset
    (p : Parser) :
    Parser :=
  { p with level := .whole 0, tokens := TokenList.ofTokens [] }

/- The state from which productions start. -/
def state
    (p : Parser) :
    ParseState :=
  ⟨p.tokens.current, p.tokens.rest, p.level⟩

/- The parser with the state that a production has left. -/
def resume
    (p : Parser)
    (s : ParseState) :
    Parser :=
  { p with
    level := s.level
    tokens :=
      { p.tokens with
        current := s.current
        position := p.tokens.tokens.length - s.rest.length } }

/- Runs a step from where the parser is. -/
def run
    {α : Type}
    (p : Parser)
    (step : Parse α) :
    Except ParseError α × Parser :=
  match step p.state with
  | .ok result s => (.ok result, p.resume s)
  | .error e s => (.error e, p.resume s)

end Parser

end Offside

------------------------------------------------------------
-- Programs
------------------------------------------------------------

namespace Offside.Parser

/-
  A program: its first token is taken, and another one if that
  is the token of a list that was not begun.
-/
def program
    (table : Precedence)
    (name : String) :
    Parse Node := do
  Parse.advance
  if ← Parse.atKind .unset then
    Parse.advance
  let nodes ← Grammar.run (Grammar.items table)
  return .program name nodes

/- Parses a program. -/
def parse
    (p : Parser)
    (tokens : TokenList)
    (name : String) :
    Except ParseError Node × Parser :=
  let p := { p.reset with tokens := tokens }
  p.run (program p.table name)

end Offside.Parser

------------------------------------------------------------
-- Parts of Programs
------------------------------------------------------------

namespace Offside

/- The forms of the language that can be parsed on their own. -/
inductive Form where
  | function
  | external
  | primary
  | block
  | expression
  | branch
  | literal
  | parenthesized
  | named
  | loop
  | declaration
  | unary
  | functionPrototype
  | externPrototype
  | returned
  deriving DecidableEq, Repr

namespace Form

/- The production of a form. -/
def production
    (table : Precedence)
    (form : Form)
    (n : Nat) :
    Parse Node :=
  match form with
  | function => Parse.function (Grammar.block table n)
  | external => Parse.external
  | primary => Grammar.primary table n
  | block => Grammar.block table n
  | expression => Grammar.expression table n
  | branch =>
      Parse.branch (Grammar.expression table n) (Grammar.block table n)
  | literal => Parse.literal
  | parenthesized => Parse.parenthesized (Grammar.expression table n)
  | named => Parse.named (Grammar.arguments table n)
  | loop => Parse.loop (Grammar.expression table n)
  | declaration =>
      Parse.declaration (Grammar.expression table n)
        (Grammar.bindings table n)
  | unary => Grammar.unary table n
  | functionPrototype => Parse.functionPrototype
  | externPrototype => Parse.externPrototype
  | returned => Parse.returned (Grammar.expression table n)

end Form

namespace Parser

/- Parses one form from where the parser is. -/
def parseForm
    (p : Parser)
    (form : Form) :
    Except ParseError Node × Parser :=
  p.run (Grammar.run (form.production p.table))

/- Parses what follows a left operand. -/
def parseRest
    (p : Parser)
    (least : Int)
    (lhs : Node) :
    Except ParseError Node × Parser :=
  p.run (Grammar.run fun n => Grammar.binaryRest p.table n least lhs)

end Parser

end Offside
