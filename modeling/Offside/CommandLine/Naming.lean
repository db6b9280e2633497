/-
  Names and lines that the command line makes: the name of a
  program from the path of its file, and the line that reports
  an error.

  Key definitions include:
    * `Offside.CommandLine.programName`
    * `Offside.CommandLine.errorReport`
-/

------------------------------------------------------------
-- Names and Reports
------------------------------------------------------------

namespace Offside.CommandLine

/- The ending of the files that hold programs. -/
def fileEnding : String := ".arx"

/-
  The name of the program in a file: the last part of the path
  without the ending, wherever that stands.
-/
def programName
    (path : String) :
    String :=
  ((path.splitOn "/").getLastD "").replace fileEnding ""

/- How an error is reported: on a line, with an empty line after it. -/
def errorReport
    (message : String) :
    String :=
  "Error: " ++ message ++ "\n\n"

end Offside.CommandLine
