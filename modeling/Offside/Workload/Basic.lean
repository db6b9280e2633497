import Offside.CommandLine.Arguments
import Offside.Workload.Sample

/-
  Workloads: each part of the compiler put to work on a program
  of a given size, which is a sample or is given.

  Key definitions include:
    * `Offside.Workload.tokenTexts`
    * `Offside.Workload.nodeKinds`
    * `Offside.Workload.failures`
    * `Offside.Workload.outline`
    * `Offside.Workload.prototypeCounts`
    * `Offside.Workload.characters`
    * `Offside.Workload.listing`
    * `Offside.Workload.kindLists`
-/

------------------------------------------------------------
-- Texts to Trees
------------------------------------------------------------

namespace Offside.Workload

/- A new reader on a text. -/
def reader
    (text : String) :
    Reader :=
  Reader.ofInput (Input.empty.loadText text)

/- The texts of the tokens of the sample. -/
def tokenTexts
    (size : Nat) :
    Except Failure (List String) := do
  let tokens ← (reader (Sample.everyConstruct size)).lex.1
  return tokens.map Token.text

/- The nodes of a program. -/
def nodes
    (name text : String) :
    Except Failure (List Node) := do
  let program ← ((reader text).parse name).1
  return program.nodes?.getD []

/- The kinds of the nodes of the sample. -/
def nodeKinds
    (size : Nat) :
    Except Failure (List NodeKind) := do
  let nodes ← nodes Reader.defaultName (Sample.everyConstruct size)
  return nodes.map Node.kind

/- How parsing fails on a text, if it does. -/
def failure?
    (text : String) :
    Option Failure :=
  match nodes Reader.defaultName text with
  | .ok _ => none
  | .error e => some e

/-
  How parsing fails on texts, which are taken in turn as often
  as the size says.
-/
def failures
    (texts : List String)
    (size : Nat) :
    List Failure :=
  ((List.replicate size texts).flatten.take size).filterMap failure?

end Offside.Workload

------------------------------------------------------------
-- Trees to Outlines and Code
------------------------------------------------------------

namespace Offside.Workload

/- The name of the programs of workloads. -/
def programName : String := "bench"

/- The outline of the sample. -/
def outline
    (size : Nat) :
    Except Failure Outline := do
  let program ← ((reader (Sample.outlined size)).parse programName).1
  let taken := Outlining.taking (Outlining.visit program)
  match taken Outlining.start with
  | .ok outline _ => return outline
  | .error e _ => throw (.outlining e)

/- Emits an item of a program: a function as given, others by a visit. -/
def emitItem
    (emitFunction : Node → Emit Unit)
    (item : Node) :
    Emit Unit :=
  match item with
  | .function proto body => emitFunction (.function proto body)
  | item => Emit.visit item

/-
  How many prototypes are known after each item.  An item that
  fails leaves what it has done.
-/
def countPrototypes
    (emitFunction : Node → Emit Unit)
    (s : EmitState) :
    List Node →
    List Nat
  | [] => []
  | item :: items =>
      let s :=
        match emitItem emitFunction item s with
        | .ok _ s => s
        | .error _ s => s
      s.generator.prototypes.length ::
        countPrototypes emitFunction s items

/- How many prototypes are known after each item of a program. -/
def prototypeCounts
    (emitFunction : Node → Emit Unit)
    (program : String) :
    Except Failure (List Nat) := do
  let items ← nodes programName program
  let generator := Generator.new false "" "tmp.o" true
  return countPrototypes emitFunction
    ⟨generator, Bindings.empty, "", Folder.empty⟩ items

end Offside.Workload

------------------------------------------------------------
-- Characters, Files and Nodes
------------------------------------------------------------

namespace Offside.Workload

/- The characters of a sample, as an input gives them. -/
def characters
    (size : Nat) :
    List Char :=
  (Input.empty.loadText (Sample.characters size)).unread

/- The name of the file with a number. -/
def fileName
    (n : Nat) :
    String :=
  "file_" ++ toString n ++ CommandLine.fileEnding

/- A folder with as many files as the size says, of the given texts. -/
def folder
    (text : Nat → String)
    (size : Nat) :
    Folder :=
  (List.range size).foldl
    (fun f n => f.add (fileName n) (text n).toUTF8) Folder.empty

/-
  The number of files, and how much is printed to tell the
  version and to list the tokens of all files.  There has to be
  a file.
-/
def listing
    (text : Nat → String)
    (size : Nat) :
    Option (Nat × Nat) :=
  if size = 0 then none
  else
    let folder := folder text size
    let names := (List.range size).map fileName
    let version := CommandLine.run ["--version"] folder
    let tokens := CommandLine.run ("--show-tokens" :: names) folder
    some (size,
      version.outcome.printed.length + tokens.outcome.printed.length)

/- The kinds of a node of each kind, as often as the size says. -/
def kindLists
    (size : Nat) :
    List (List NodeKind) :=
  List.replicate size (Sample.nodeOfEachKind.map Node.kind)

end Offside.Workload
