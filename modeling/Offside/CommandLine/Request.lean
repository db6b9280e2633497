import Offside.CommandLine.Shell

/-
  Requests: what the compiler is asked to do with which files.

  Key definitions include:
    * `Offside.Request`
    * `Offside.Request.run`

  Of several things asked for only one is done: the outline,
  else the tokens, else the code, else the shell.
-/

------------------------------------------------------------
-- Requests
------------------------------------------------------------

namespace Offside

/- What to do with the input files. -/
structure Request where
  inputFiles : List String
  outputFile : String
  showOutline : Bool
  showTokens : Bool
  showCode : Bool
  shell : Bool
  deriving DecidableEq, Repr

/- How a run ended, what it printed, and the files it left. -/
structure Outcome where
  result : Except Failure Unit
  printed : String
  folder : Folder

namespace Request

/- Nothing but to compile no files. -/
def empty : Request := ⟨[], "", false, false, false, false⟩

/- The name that compiled code takes for its input. -/
def inputName : String := "input_file"

/- Prints the outline of the programs. -/
def outline
    (nodes : List Node) :
    Except Failure Unit × String :=
  match Outlining.ofTree (.block nodes) Outlining.start with
  | .ok outline s => (.ok (), s.printed ++ outline.document ++ "\n")
  | .error e s => (.error (.outlining e), s.printed)

/- Compiles the programs, to text or to an object file. -/
def compile
    (outputFile : String)
    (shows : Bool)
    (nodes : List Node)
    (folder : Folder) :
    Outcome :=
  let s : EmitState :=
    { generator := Generator.new false inputName outputFile true
      bindings := Bindings.empty
      printed := ""
      folder := folder }
  let (result, s) := Shell.emit s (Emit.evaluate (.block nodes) shows)
  ⟨result, s.printed, s.folder⟩

/- Does what is asked for, in a folder, with a reader. -/
def runWith
    (q : Request)
    (r : Reader)
    (folder : Folder) :
    Outcome :=
  if q.showOutline then
    match r.parseFiles folder q.inputFiles with
    | (.error e, _) => ⟨.error e, "", folder⟩
    | (.ok nodes, _) =>
        let (result, printed) := outline nodes
        ⟨result, printed, folder⟩
  else if q.showTokens then
    let (result, printed) := r.listTokens folder q.inputFiles
    ⟨result, printed, folder⟩
  else if q.shell && !q.showCode then ⟨.error .noShell, "", folder⟩
  else
    match r.parseFiles folder q.inputFiles with
    | (.error e, _) => ⟨.error e, "", folder⟩
    | (.ok nodes, _) => compile q.outputFile q.showCode nodes folder

/- Does what is asked for, with a new reader. -/
def run
    (q : Request)
    (folder : Folder) :
    Outcome :=
  q.runWith (Reader.ofInput Input.empty) folder

end Request

end Offside
