import Offside.Emit.State
import Offside.Outline.Visit
import Offside.Parser.State
import Offside.Token.Lexeme

/-
  Failures of a whole run: the errors of its stages, and those
  of the command line.

  Key definitions include:
    * `Offside.Failure`
    * `Offside.Failure.message`
-/

------------------------------------------------------------
-- Failures
------------------------------------------------------------

namespace Offside

/- Why a run did not succeed. -/
inductive Failure where
  | lexing (e : MalformedNumber)
  | parsing (e : ParseError)
  | outlining (e : OutlineError)
  | emitting (e : EmitError)
  | file (e : FileError)
  | endOfInput
  | noShell
  | exit (code : Nat)
  deriving DecidableEq, Repr

namespace Failure

/- The text of the failure. -/
def message :
    Failure →
    String
  | lexing e => e.message
  | parsing e => e.message
  | outlining e => e.message
  | emitting e => e.message
  | file e => e.message
  | endOfInput => "EOF when reading a line"
  | noShell => "Arx Shell is not implemented yet."
  | exit code => toString code

end Failure

end Offside
