import Offside.CommandLine.Naming

/-
  Switches: the options of the command line, and the texts for
  usage, help and version.

  Key definitions include:
    * `Offside.CommandLine.Switch`
    * `Offside.CommandLine.switches`
    * `Offside.CommandLine.helpText`
-/

------------------------------------------------------------
-- Switches
------------------------------------------------------------

namespace Offside.CommandLine

/- What a switch asks for. -/
inductive Flag where
  | help
  | version
  | outputFile
  | library
  | showOutline
  | showTokens
  | showCode
  | shell
  deriving DecidableEq, Repr

/- A switch: its names, the name of its value, and its help. -/
structure Switch where
  flag : Flag
  names : List String
  value : String
  help : String
  deriving DecidableEq, Repr

namespace Switch

/- Whether a value belongs to the switch. -/
def takesValue
    (s : Switch) :
    Bool :=
  s.value ≠ ""

/- How messages name the switch. -/
def title
    (s : Switch) :
    String :=
  "/".intercalate s.names

/- The switch in the help. -/
def helpEntry
    (s : Switch) :
    String :=
  let value := if s.takesValue then " " ++ s.value else ""
  "  " ++ ", ".intercalate (s.names.map (· ++ value)) ++ "\n    "
    ++ s.help ++ "\n"

end Switch

/- All switches, in the order of the help. -/
def switches : List Switch :=
  [⟨.help, ["-h", "--help"], "", "show this help message and exit"⟩,
   ⟨.version, ["--version"], "",
    "Show the version of the installed MakIm tool."⟩,
   ⟨.outputFile, ["--output-file"], "OUTPUT_FILE", "The output file"⟩,
   ⟨.library, ["--lib"], "", "build source code as library"⟩,
   ⟨.showOutline, ["--show-ast"], "",
    "Show the AST for the input source code"⟩,
   ⟨.showTokens, ["--show-tokens"], "",
    "Show the tokens for the input source code"⟩,
   ⟨.showCode, ["--show-llvm-ir"], "",
    "Show the LLVM IR for the input source code"⟩,
   ⟨.shell, ["--shell"], "", "Open Arx in a shell prompt"⟩]

/- Every name with its switch. -/
def switchNames : List (String × Switch) :=
  switches.flatMap fun s => s.names.map fun name => (name, s)

end Offside.CommandLine

------------------------------------------------------------
-- Usage, Help and Version
------------------------------------------------------------

namespace Offside.CommandLine

/- How the program is called. -/
def usageText : String :=
  "usage: arx [-h] [--version] [--output-file OUTPUT_FILE] [--lib] "
    ++ "[--show-ast]\n"
    ++ "           [--show-tokens] [--show-llvm-ir] [--shell]\n"
    ++ "           [input_files ...]\n"

/- The help of the program. -/
def helpText : String :=
  usageText
    ++ "\nArx is a compiler that uses the power of llvm to bring a modern "
    ++ "infra-structure.\n"
    ++ "\npositional arguments:\n  input_files\n    The input file\n"
    ++ "\noptions:\n" ++ "".intercalate (switches.map Switch.helpEntry)
    ++ "\nIf you have any problem, open an issue at: "
    ++ "https://github.com/arxlang/arx\n"

/- The version of the program. -/
def versionText : String := "0.1.1\n"

end Offside.CommandLine
