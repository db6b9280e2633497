import Offside.Emit.Visit

/-
  Compiling: code for a tree, its text or an object file, and
  the linking of an executable, by a command.

  Key definitions include:
    * `Offside.Emit.evaluate`
    * `Offside.Emit.writeObject`
    * `Offside.Emit.link`
    * `Offside.Emit.makeExecutable`
-/

------------------------------------------------------------
-- Executables
------------------------------------------------------------

namespace Offside.Emit

/- How the file of an executable's main program is shown. -/
def mainFile : String := "<tmp>.cpp"

/- The main program, which is linked with an object file. -/
def mainProgram : String :=
  "#include <iostream>\nint main() \x7b\n"
    ++ "  std::cout << \"ARX[WARNING]: This is an empty executable file\""
    ++ " << std::endl;\n\x7d\n"

/- The command that links an object file. -/
def linkCommand
    (g : Generator) :
    String :=
  " ".intercalate
    ["clang++", "-fPIC", "-std=c++20", mainFile, g.outputFile, "-o",
     g.inputFile ++ "c"]

/-
  Links the object file.  The main program is in a file until
  the command has ended.
-/
def link
    (g : Generator)
    (f : Folder) :
    Nat × Folder :=
  let (status, after) :=
    (f.put [mainFile] mainProgram.toUTF8).perform (linkCommand g)
  (status, after.delete [mainFile])

/-
  Says how to link the object file, and does it.  If it cannot
  be linked, the report of that fails as well.
-/
def makeExecutable : Emit Unit := do
  print "Not fully implemented yet.\n"
  let s ← get
  print ("ARX[INFO]:  " ++ linkCommand s.generator ++ "\n")
  let (status, folder) := link s.generator s.folder
  modify fun s => { s with folder := folder }
  unless status = 0 do
    throw .missingPart

end Offside.Emit

------------------------------------------------------------
-- Evaluation
------------------------------------------------------------

namespace Offside.Emit

/- Whether every block of a module has ended. -/
def isComplete
    (m : IR.Module) :
    Bool :=
  m.functions.all fun f => f.blocks.all IR.Block.isTerminated

/- The text of the module, if its operands are all single. -/
def moduleText : Emit String := do
  part (← get).generator.module.text?

/- Writes the object file. -/
def writeObject
    (text : String) :
    Emit Unit := do
  unless isComplete (← get).generator.module do
    throw .unterminated
  if (← get).generator.outputFile = "" then
    modify fun s =>
      { s with
        generator.outputFile :=
          s.generator.inputFile ++ Generator.objectEnding }
  let s ← get
  match s.folder.write s.generator.outputFile text.toUTF8 with
  | .error e => throw (.file e)
  | .ok folder => set { s with folder := folder }
  print ("Wrote " ++ s.generator.outputFile ++ "\n")

/-
  Generates code for a tree, and shows it or writes an object
  file.
-/
def evaluate
    (tree : Node)
    (shows : Bool) :
    Emit Unit := do
  visitBlock tree
  let text ← moduleText
  if shows then
    print (text ++ "\n")
  else do
    writeObject text
    unless (← get).generator.isLibrary do
      makeExecutable

end Offside.Emit
