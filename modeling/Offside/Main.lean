import Offside.CommandLine.Arguments

/-
  The program: its arguments and the files they name come from
  the system, and what it prints and writes goes back there.

  Key definitions include:
    * `Offside.loadFolder`
    * `main`
-/

------------------------------------------------------------
-- Files
------------------------------------------------------------

namespace Offside

/- The folder that the program runs in, with the files it can read. -/
def loadFolder
    (paths : List String) :
    IO Folder := do
  let here := (← IO.currentDir).toString
  paths.foldlM
    (fun (f : Folder) (path : String) => do
      try
        return f.add path (← IO.FS.readBinFile path)
      catch _ => return f)
    (Folder.emptyAt ((here.splitOn "/").foldl Folder.enter []))

/- Writes the files that a run has left and that are new. -/
def saveFolder
    (before after : Folder) :
    IO Unit :=
  for (path, bytes) in after.files do
    let old := (before.file? path).map ByteArray.toList
    if old ≠ some bytes.toList then
      IO.FS.writeBinFile ("/" ++ "/".intercalate path) bytes

end Offside

------------------------------------------------------------
-- The Program
------------------------------------------------------------

open Offside in
/- Runs the program and returns its exit code. -/
def main
    (arguments : List String) :
    IO UInt32 := do
  let before ← loadFolder arguments
  let report := CommandLine.run arguments before
  saveFolder before report.outcome.folder
  IO.print report.outcome.printed
  IO.eprint report.errors
  match report.outcome.result with
  | .ok () => return 0
  | .error (.exit code) => return code.toUInt32
  | .error e => do
      IO.eprintln e.message
      return 1
