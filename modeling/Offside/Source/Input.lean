import Offside.Source.Buffer
import Offside.Source.Folder
import Offside.Text.Blank
import Offside.Token.Lexer

/-
  Input: where the characters of a program come from, and the
  loading of files and of standard input.

  Key definitions include:
    * `Offside.Input`
    * `Offside.Input.loadFile`
    * `Offside.Input.load`
    * `Offside.Scanner`

  A file is loaded line by line, and each line is followed by
  an empty one.
-/

------------------------------------------------------------
-- Lines of a File
------------------------------------------------------------

namespace Offside.Text

/- Line breaks of every convention become line feeds. -/
def unifyLineBreaks :
    List Char →
    List Char
  | [] => []
  | '\r' :: '\n' :: cs => '\n' :: unifyLineBreaks cs
  | '\r' :: cs => '\n' :: unifyLineBreaks cs
  | c :: cs => c :: unifyLineBreaks cs

/-
  Puts a line feed after every line, in addition to the one
  that ends it.  `inLine` tells whether a line has begun.
-/
def spaceLines
    (inLine : Bool) :
    List Char →
    List Char
  | [] => if inLine then ['\n'] else []
  | c :: cs =>
      if c = '\n' then '\n' :: '\n' :: spaceLines false cs
      else c :: spaceLines true cs

end Offside.Text

------------------------------------------------------------
-- Input
------------------------------------------------------------

namespace Offside

/-
  The buffer, the rest of standard input, whether characters
  are taken from there, and the name of the input file.
-/
structure Input where
  buffer : Buffer
  stdin : List Char
  direct : Bool
  file : String
  deriving DecidableEq, Repr

namespace Input

/- No input at all. -/
def empty : Input := ⟨Buffer.empty, [], false, ""⟩

/- The buffer holds the text, to be read from the front. -/
def loadText
    (i : Input)
    (text : String) :
    Input :=
  { i with buffer := Buffer.ofText text }

/-
  The buffer holds the lines of a file.  A file that is no text
  leaves the buffer empty; one that cannot be opened leaves it
  alone.
-/
def loadFile
    (i : Input)
    (folder : Folder)
    (path : String) :
    Except FileError Unit × Input :=
  match folder.read path with
  | .error e => (.error e, i)
  | .ok bytes =>
      match String.fromUTF8? bytes with
      | none => (.error (.notText path), i.loadText "")
      | some text =>
          let lines :=
            Text.spaceLines false (Text.unifyLineBreaks text.toList)
          (.ok (), i.loadText (String.ofList lines))

/-
  Loads the input file if there is one, else all of standard
  input without the white space around it, if that is anything.
-/
def load
    (i : Input)
    (folder : Folder) :
    Except FileError Unit × Input :=
  if i.file ≠ "" then i.loadFile folder i.file
  else
    let text := String.ofList (Text.trim i.stdin)
    let i := { i with stdin := [] }
    (.ok (), if text = "" then i else i.loadText text)

/- The characters that are not taken yet. -/
def unread
    (i : Input) :
    List Char :=
  if i.direct then i.stdin else i.buffer.unread

/- The input after a number of readings. -/
def take
    (i : Input)
    (n : Nat) :
    Input :=
  if i.direct then { i with stdin := i.stdin.drop n }
  else { i with buffer := i.buffer.move n }

/- Takes one character; there is none past the end. -/
def next
    (i : Input) :
    Option Char × Input :=
  (i.unread.head?, i.take 1)

end Input

end Offside

------------------------------------------------------------
-- Scanners
------------------------------------------------------------

namespace Offside

/- A lexer and the input that it reads from. -/
structure Scanner where
  input : Input
  lexer : Lexer
  deriving DecidableEq, Repr

namespace Scanner

/- A new lexer on an input. -/
def ofInput
    (input : Input) :
    Scanner :=
  ⟨input, Lexer.start []⟩

/- Lets the lexer read from the input as it is now. -/
def run
    {α : Type}
    (s : Scanner)
    (action : Lexer → α × Lexer) :
    α × Scanner :=
  let (result, l) :=
    action { s.lexer with unread := s.input.unread, reads := 0 }
  (result, ⟨s.input.take l.reads, { l with unread := [], reads := 0 }⟩)

/- Reads one token. -/
def token
    (s : Scanner) :
    Except MalformedNumber Token × Scanner :=
  s.run Lexer.next

/- Reads all tokens of the rest of the input. -/
def lex
    (s : Scanner) :
    Except MalformedNumber (List Token) × Scanner :=
  s.run Lexer.lex

/- Reads a character past the one at hand. -/
def advance
    (s : Scanner) :
    Option Char × Scanner :=
  s.run fun l =>
    (l.advance.ahead, { l.advance with ahead := l.ahead })

/- The lexer as new, on the same input. -/
def reset
    (s : Scanner) :
    Scanner :=
  ofInput s.input

end Scanner

end Offside
