import Offside.CommandLine.Naming
import Offside.Failure
import Offside.Outline.Document
import Offside.Parser.Basic
import Offside.Source.Input

/-
  Programs: the way from a text or a file to tokens and to a
  syntax tree, with a scanner and a parser that are used again
  for the next one.

  Key definitions include:
    * `Offside.Reader`
    * `Offside.Reader.lexFile`
    * `Offside.Reader.parseText`
    * `Offside.Reader.parseFiles`
-/

------------------------------------------------------------
-- Readers
------------------------------------------------------------

namespace Offside

/- A scanner and a parser. -/
structure Reader where
  scanner : Scanner
  parser : Parser
  deriving DecidableEq, Repr

namespace Reader

/- A new reader on an input. -/
def ofInput
    (input : Input) :
    Reader :=
  ⟨Scanner.ofInput input, Parser.new⟩

/- The tokens of the input. -/
def lex
    (r : Reader) :
    Except Failure (List Token) × Reader :=
  match r.scanner.lex with
  | (.error e, scanner) =>
      (.error (.lexing e), { r with scanner := scanner })
  | (.ok tokens, scanner) => (.ok tokens, { r with scanner := scanner })

/- The syntax tree of the input. -/
def parse
    (r : Reader)
    (name : String) :
    Except Failure Node × Reader :=
  match r.lex with
  | (.error e, r) => (.error e, r)
  | (.ok tokens, r) =>
      match r.parser.parse (TokenList.ofTokens tokens) name with
      | (.error e, parser) =>
          (.error (.parsing e), { r with parser := parser })
      | (.ok node, parser) => (.ok node, { r with parser := parser })

end Reader

end Offside

------------------------------------------------------------
-- Texts and Files
------------------------------------------------------------

namespace Offside.Reader

/- The name of a program that has no file. -/
def defaultName : String := "main"

/- The syntax tree of a text. -/
def parseText
    (r : Reader)
    (text : String) :
    Except Failure Node × Reader :=
  parse { r with scanner.input := r.scanner.input.loadText text }
    defaultName

/- Loads a file into the input. -/
def loadFile
    (r : Reader)
    (folder : Folder)
    (path : String) :
    Except Failure Unit × Reader :=
  match r.scanner.input.loadFile folder path with
  | (.error e, input) =>
      (.error (.file e), { r with scanner.input := input })
  | (.ok (), input) => (.ok (), { r with scanner.input := input })

/- The tokens of a file. -/
def lexFile
    (r : Reader)
    (folder : Folder)
    (path : String) :
    Except Failure (List Token) × Reader :=
  match r.loadFile folder path with
  | (.error e, r) => (.error e, r)
  | (.ok (), r) => r.lex

/- The syntax tree of a file, which has the name of the file. -/
def parseFile
    (r : Reader)
    (folder : Folder)
    (path : String) :
    Except Failure Node × Reader :=
  match r.loadFile folder path with
  | (.error e, r) => (.error e, r)
  | (.ok (), r) => r.parse (CommandLine.programName path)

/- The syntax trees of several files, up to the first that fails. -/
def parseFiles
    (r : Reader)
    (folder : Folder) :
    List String →
    Except Failure (List Node) × Reader
  | [] => (.ok [], r)
  | path :: paths =>
      match r.parseFile folder path with
      | (.error e, r) => (.error e, r)
      | (.ok node, r) =>
          match parseFiles r folder paths with
          | (.error e, r) => (.error e, r)
          | (.ok nodes, r) => (.ok (node :: nodes), r)

/-
  The lines that list the tokens of several files.  What is
  listed before a failure stays listed.
-/
def listTokens
    (r : Reader)
    (folder : Folder) :
    List String →
    Except Failure Unit × String
  | [] => (.ok (), "")
  | path :: paths =>
      match r.lexFile folder path with
      | (.error e, _) => (.error e, "")
      | (.ok tokens, r) =>
          let lines := tokens.map fun t => t.text ++ "\n"
          let (result, more) := listTokens r folder paths
          (result, "".intercalate lines ++ more)

end Offside.Reader
