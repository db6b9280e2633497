import Offside.Text.Quoted

/-
  Folders: named files with their bytes, the rules of finding,
  reading, writing and removing one, and commands that work on
  them.

  Key definitions include:
    * `Offside.FileError`
    * `Offside.Commands`
    * `Offside.Folder`
    * `Offside.Folder.resolve`
    * `Offside.Folder.read`
    * `Offside.Folder.write`
    * `Offside.Folder.remove`
    * `Offside.Folder.perform`

  A path is followed part by part, from the root if it starts
  with a slash and from the folder itself if not.
-/

------------------------------------------------------------
-- Errors
------------------------------------------------------------

namespace Offside

/- Why a file cannot be read or written. -/
inductive FileError where
  | missing (path : String)
  | isFolder (path : String)
  | notText (path : String)
  deriving DecidableEq, Repr

namespace FileError

/- The text of the error. -/
def message :
    FileError →
    String
  | missing path =>
      "[Errno 2] No such file or directory: " ++ Text.quoted path
  | isFolder path =>
      "[Errno 21] Is a directory: " ++ Text.quoted path
  | notText path =>
      "not a text in UTF-8: " ++ Text.quoted path

end FileError

end Offside

------------------------------------------------------------
-- Folders
------------------------------------------------------------

namespace Offside

/- The parts of a path from the root. -/
abbrev Path := List String

/-
  What commands do: the status that each one ends with, and the
  files after it.
-/
abbrev Commands :=
  String → List (Path × ByteArray) → Nat × List (Path × ByteArray)

namespace Commands

/- The status of a command that is not there. -/
def notFound : Nat := 127 * 256

/- No command is there. -/
def none : Commands := fun _ files => (notFound, files)

end Commands

/-
  Files with their bytes, the folders that hold them, the one
  that paths start from, and the commands at hand.
-/
structure Folder where
  files : List (Path × ByteArray)
  folders : List Path
  here : Path := []
  commands : Commands := Commands.none

namespace Folder

/- The folder of that path, without files. -/
def emptyAt
    (here : Path) :
    Folder :=
  { files := [], folders := [], here := here }

/- A folder without files. -/
def empty : Folder := emptyAt ["work"]

/-
  Whether a path leads to a folder: this one, one that it is in,
  or one of those that hold files.
-/
def isFolder
    (f : Folder)
    (path : Path) :
    Bool :=
  path.isPrefixOf f.here || f.folders.contains path

/- The bytes of a file. -/
def file?
    (f : Folder)
    (path : Path) :
    Option ByteArray :=
  f.files.lookup path

/- One step along a path; there is nothing above the root. -/
def enter
    (path : Path)
    (part : String) :
    Path :=
  if part = "" ∨ part = "." then path
  else if part = ".." then path.dropLast
  else path ++ [part]

/-
  Follows parts from a folder.  Every part but the last has to
  lead to a folder.
-/
def follow
    (f : Folder) :
    Path →
    List String →
    Option Path
  | path, [] => some path
  | path, part :: parts =>
      if f.isFolder path then follow f (enter path part) parts
      else none

/- Where a written path starts. -/
def origin
    (f : Folder)
    (path : String) :
    Path :=
  if path.startsWith "/" then [] else f.here

/- Where a written path leads to. -/
def resolve
    (f : Folder)
    (path : String) :
    Except FileError Path :=
  if path = "" then .error (.missing path)
  else
    match f.follow (f.origin path) (path.splitOn "/") with
    | some target =>
        if f.isFolder target then .error (.isFolder path)
        else .ok target
    | none => .error (.missing path)

end Folder

end Offside

------------------------------------------------------------
-- Reading and Writing
------------------------------------------------------------

namespace Offside.Folder

/- The bytes of the file that a path leads to. -/
def read
    (f : Folder)
    (path : String) :
    Except FileError ByteArray := do
  let target ← f.resolve path
  match f.file? target with
  | some bytes => .ok bytes
  | none => .error (.missing path)

/- Takes a file away, if there is one. -/
def delete
    (f : Folder)
    (target : Path) :
    Folder :=
  { f with files := f.files.filter fun entry => entry.1 ≠ target }

/- Puts a file in the place of one of the same path, if any. -/
def put
    (f : Folder)
    (target : Path)
    (bytes : ByteArray) :
    Folder :=
  { f with files := (f.delete target).files ++ [(target, bytes)] }

/- Writes a file; the folder that is to hold it has to be there. -/
def write
    (f : Folder)
    (path : String)
    (bytes : ByteArray) :
    Except FileError Folder := do
  let target ← f.resolve path
  if f.isFolder target.dropLast then .ok (f.put target bytes)
  else .error (.missing path)

/- Adds a file and the folders on the way to it. -/
def add
    (f : Folder)
    (path : String)
    (bytes : ByteArray) :
    Folder :=
  let target := (path.splitOn "/").foldl enter (f.origin path)
  let above := (List.range target.length).map fun n => target.take n
  put { f with folders := above.foldl insertNew f.folders }
    target bytes
where
  insertNew (folders : List Path) (path : Path) : List Path :=
    if folders.contains path then folders else folders ++ [path]

/- Removes a file and says whether there was one. -/
def remove
    (f : Folder)
    (path : String) :
    Bool × Folder :=
  match f.resolve path with
  | .error _ => (false, f)
  | .ok target => ((f.file? target).isSome, f.delete target)

/-
  The names of the files in the folder, in the order of their
  characters.
-/
def names
    (f : Folder) :
    List String :=
  let inside := f.files.filter fun entry => f.here.isPrefixOf entry.1
  (inside.map fun entry =>
    "/".intercalate (entry.1.drop f.here.length)).mergeSort
      fun a b => a ≤ b

end Offside.Folder

------------------------------------------------------------
-- Temporary Files and Commands
------------------------------------------------------------

namespace Offside.Folder

/- Adds a file under a name that is not in use yet. -/
def addTemporary
    (f : Folder)
    (number : Nat)
    (text : String) :
    String × Folder :=
  let name := toString number ++ ".cpp"
  (name, f.add name text.toUTF8)

/- Carries out a command and says how it ended. -/
def perform
    (f : Folder)
    (command : String) :
    Nat × Folder :=
  let (status, files) := f.commands command f.files
  (status, { f with files := files })

end Offside.Folder
