import Offside.CommandLine.Program
import Offside.Emit.Compile

/-
  The shell: programs of one line, each compiled on its own by
  the same generator.

  Key definitions include:
    * `Offside.Shell.run`
-/

------------------------------------------------------------
-- The Shell
------------------------------------------------------------

namespace Offside.Shell

/- What the shell prints first: its name and a prompt. -/
def greeting : String := "Arx  \n\n>>> \n"

/- Runs a step of code generation. -/
def emit
    (s : EmitState)
    (step : Emit Unit) :
    Except Failure Unit × EmitState :=
  match step s with
  | .ok () s => (.ok (), s)
  | .error e s => (.error (.emitting e), s)

/-
  Compiles lines one after another up to the first that fails.
  At the end the shell is interrupted, or the input ends, which
  is a failure.
-/
def compileLines
    (interrupted : Bool)
    (r : Reader)
    (s : EmitState) :
    List String →
    Except Failure Unit × EmitState
  | [] => (if interrupted then .ok () else .error .endOfInput, s)
  | line :: lines =>
      match r.parseText line with
      | (.error e, _) => (.error e, s)
      | (.ok tree, r) =>
          match emit s (Emit.evaluate tree false) with
          | (.error e, s) => (.error e, s)
          | (.ok (), s) => compileLines interrupted r s lines

/- Greets, and compiles the lines of the input. -/
def run
    (interrupted : Bool)
    (lines : List String)
    (s : EmitState) :
    Except Failure Unit × EmitState :=
  compileLines interrupted (Reader.ofInput Input.empty)
    { s with printed := s.printed ++ greeting } lines

end Offside.Shell
