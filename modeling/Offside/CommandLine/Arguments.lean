import Offside.CommandLine.Request
import Offside.CommandLine.Switch

/-
  Arguments: how the words of a command line are understood.

  Key definitions include:
    * `Offside.CommandLine.Attached`
    * `Offside.CommandLine.Word`
    * `Offside.CommandLine.classify`
    * `Offside.CommandLine.understand`
    * `Offside.CommandLine.run`

  A long name can be shortened as long as only one switch
  begins like it.  Only the first run of operands names input
  files.
-/

------------------------------------------------------------
-- Errors
------------------------------------------------------------

namespace Offside.CommandLine

/- Why a command line is not understood. -/
inductive UsageError where
  | ambiguous (word : String) (names : List String)
  | expectsValue (s : Switch)
  | ignoredValue (s : Switch) (value : String)
  | unrecognized (words : List String)
  deriving DecidableEq, Repr

namespace UsageError

/- The text of the error. -/
def message :
    UsageError →
    String
  | ambiguous word names =>
      "ambiguous option: " ++ word ++ " could match "
        ++ ", ".intercalate names
  | expectsValue s =>
      "argument " ++ s.title ++ ": expected one argument"
  | ignoredValue s value =>
      "argument " ++ s.title ++ ": ignored explicit argument "
        ++ Text.quoted value
  | unrecognized words =>
      "unrecognized arguments: " ++ " ".intercalate words

end UsageError

end Offside.CommandLine

------------------------------------------------------------
-- Words
------------------------------------------------------------

namespace Offside.CommandLine

/-
  What is written with a switch in the same word: nothing, a
  text after an equals sign, or a text right after a letter.
-/
inductive Attached where
  | nothing
  | value (text : String)
  | letters (text : String)
  deriving DecidableEq, Repr

/- What a word of the command line is. -/
inductive Meaning where
  | operand
  | mark
  | switch (s : Switch) (attached : Attached)
  | unknown
  deriving DecidableEq, Repr

/- A word and what it is. -/
structure Word where
  text : String
  meaning : Meaning
  deriving DecidableEq, Repr

/- The mark after which all words are operands. -/
def operandMark : String := "--"

/- A word cut at its first equals sign. -/
def cutValue
    (word : List Char) :
    String × Attached :=
  let name := String.ofList (word.takeWhile (· ≠ '='))
  match word.dropWhile (· ≠ '=') with
  | [] => (name, .nothing)
  | _ :: value => (name, .value (String.ofList value))

/- Whether a word is a negative number. -/
def isNegativeNumber
    (word : List Char) :
    Bool :=
  match word with
  | '-' :: digits =>
      let whole := digits.takeWhile isDecimal
      match digits.dropWhile isDecimal with
      | [] => !whole.isEmpty
      | '.' :: fraction => !fraction.isEmpty && fraction.all isDecimal
      | _ => false
  | _ => false
where
  isDecimal (c : Char) : Bool := (Text.decimalValue? c).isSome

/-
  The switches that a word can stand for, with what is written
  with it.  After two dashes any beginning of a name will do;
  after one dash a letter, with a text right after it.
-/
def candidates
    (word : List Char) :
    List (String × Switch × Attached) :=
  match word with
  | '-' :: '-' :: _ =>
      let (start, attached) := cutValue word
      (switchNames.filter fun (name, _) => name.startsWith start).map
        fun (name, s) => (name, s, attached)
  | _ =>
      let letter := String.ofList (word.take 2)
      let text := String.ofList (word.drop 2)
      (switchNames.filter fun (name, _) => name = letter).map
        fun (name, s) => (name, s, .letters text)

/- What a word before the mark is. -/
def classify
    (text : String) :
    Except UsageError Meaning :=
  let word := text.toList
  if word.head? ≠ some '-' then .ok .operand
  else
    match switchNames.lookup text with
    | some s => .ok (.switch s .nothing)
    | none =>
        if word.length = 1 then .ok .operand
        else
          let (name, attached) := cutValue word
          match switchNames.lookup name with
          | some s => .ok (.switch s attached)
          | none =>
              match candidates word with
              | [(_, s, attached)] => .ok (.switch s attached)
              | [] =>
                  if isNegativeNumber word || ' ' ∈ word then .ok .operand
                  else .ok .unknown
              | several =>
                  .error (.ambiguous text (several.map fun c => c.1))

/- The words of a command line. -/
def classifyAll :
    List String →
    Except UsageError (List Word)
  | [] => .ok []
  | text :: texts =>
      if text = operandMark then
        .ok (⟨text, .mark⟩ :: texts.map fun t => ⟨t, .operand⟩)
      else do
        let meaning ← classify text
        let words ← classifyAll texts
        return ⟨text, meaning⟩ :: words

end Offside.CommandLine

------------------------------------------------------------
-- Commands
------------------------------------------------------------

namespace Offside.CommandLine

/- What a command line asks for. -/
inductive Command where
  | help
  | version
  | request (q : Request)
  deriving DecidableEq, Repr

/-
  What is understood so far: the request, whether the version
  is asked for, whether input files were named, and the words
  that were not understood.
-/
structure Reading where
  request : Request
  version : Bool
  named : Bool
  extras : List String
  deriving DecidableEq, Repr

namespace Reading

/- Nothing is understood yet. -/
def empty : Reading := ⟨Request.empty, false, false, []⟩

/- Adds words that were not understood. -/
def addExtras
    (r : Reading)
    (words : List String) :
    Reading :=
  { r with extras := r.extras ++ words }

/- Takes a run of operands, and the mark if it is among them. -/
def addOperands
    (r : Reading)
    (words : List String) :
    Reading :=
  if r.named then r.addExtras words
  else
    { r with
      named := true
      request.inputFiles := words.erase operandMark }

/- Applies a switch, with its value if it has one. -/
def apply
    (r : Reading)
    (flag : Flag)
    (value : String) :
    Reading :=
  match flag with
  | .help | .library => r
  | .version => { r with version := true }
  | .outputFile => { r with request.outputFile := value }
  | .showOutline => { r with request.showOutline := true }
  | .showTokens => { r with request.showTokens := true }
  | .showCode => { r with request.showCode := true }
  | .shell => { r with request.shell := true }

end Reading

/-
  The text after a letter that cannot be letters of further
  switches.  What follows the first letter that is no switch is
  not looked at.
-/
def surplusLetters :
    List Char →
    Option String
  | [] => none
  | 'h' :: '=' :: value => some (String.ofList value)
  | 'h' :: letters => surplusLetters letters
  | '-' :: letters => some (String.ofList ('-' :: letters))
  | _ => none

/- The text written with a switch that takes none. -/
def Attached.surplus :
    Attached →
    Option String
  | nothing => none
  | value text => some text
  | letters text => surplusLetters text.toList

/- Whether a word is an operand or the mark. -/
def Word.isOperand
    (w : Word) :
    Bool :=
  w.meaning = .operand || w.meaning = .mark

/-
  Understands words one after another.  Operands that follow
  each other are gathered in `run`, the last one first.
-/
def understandWords
    (r : Reading)
    (run : List String) :
    List Word →
    Except UsageError Command
  | [] =>
      let r := if run.isEmpty then r else r.addOperands run.reverse
      if !r.extras.isEmpty then .error (.unrecognized r.extras)
      else if r.version then .ok .version
      else .ok (.request r.request)
  | w :: words =>
      let closed := if run.isEmpty then r else r.addOperands run.reverse
      match w.meaning with
      | .operand | .mark => understandWords r (w.text :: run) words
      | .unknown => understandWords (closed.addExtras [w.text]) [] words
      | .switch s attached =>
          if s.takesValue then
            match attached, words with
            | .value text, words | .letters text, words =>
                understandWords (closed.apply s.flag text) [] words
            | .nothing, ⟨text, .operand⟩ :: words =>
                understandWords (closed.apply s.flag text) [] words
            | .nothing, _ => .error (.expectsValue s)
          else
            match attached.surplus with
            | some value => .error (.ignoredValue s value)
            | none =>
                if s.flag = .help then .ok .help
                else understandWords (closed.apply s.flag "") [] words

/- Understands a command line. -/
def understand
    (arguments : List String) :
    Except UsageError Command := do
  let words ← classifyAll arguments
  understandWords .empty [] words

end Offside.CommandLine

------------------------------------------------------------
-- The Program
------------------------------------------------------------

namespace Offside.CommandLine

/- The outcome of a run, and what it wrote beside its output. -/
structure Report where
  outcome : Outcome
  errors : String

/- The text of an error of usage. -/
def usageReport
    (e : UsageError) :
    String :=
  usageText ++ "arx: error: " ++ e.message ++ "\n"

/- Runs the program with its arguments in a folder. -/
def run
    (arguments : List String)
    (folder : Folder) :
    Report :=
  match understand arguments with
  | .error e => ⟨⟨.error (.exit 2), "", folder⟩, usageReport e⟩
  | .ok .help => ⟨⟨.error (.exit 0), helpText, folder⟩, ""⟩
  | .ok .version => ⟨⟨.ok (), versionText, folder⟩, ""⟩
  | .ok (.request q) => ⟨q.run folder, ""⟩

end Offside.CommandLine
