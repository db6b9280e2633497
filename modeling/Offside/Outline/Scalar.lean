import Offside.Text.Quoted

/-
  Texts in a document: in which style a text is written, how it
  is escaped, and where a long one is broken into lines.

  Key definitions include:
    * `Offside.Page`
    * `Offside.Scalar.Style`
    * `Offside.Scalar.style`
    * `Offside.Scalar.write`

  A text is written as it is if nothing in it could be taken
  for markup, else in single quotes if it has only printable
  characters of ASCII, else in double quotes with escapes.
-/

------------------------------------------------------------
-- Pages
------------------------------------------------------------

namespace Offside

/- Characters written so far, the last one first, and the column. -/
structure Page where
  written : List Char
  column : Nat
  deriving DecidableEq, Repr

namespace Page

/- The page without text. -/
def empty : Page := ⟨[], 0⟩

/- Writes characters on the line. -/
def put
    (p : Page)
    (chars : List Char) :
    Page :=
  ⟨chars.reverse ++ p.written, p.column + chars.length⟩

/- Writes blanks up to a column. -/
def pad
    (p : Page)
    (column : Nat) :
    Page :=
  p.put (List.replicate (column - p.column) ' ')

/- Ends the line. -/
def lineBreak
    (p : Page) :
    Page :=
  ⟨'\n' :: p.written, 0⟩

/- Ends the line and begins one at a column. -/
def newLine
    (p : Page)
    (column : Nat) :
    Page :=
  p.lineBreak.pad column

/- The text of the page. -/
def text
    (p : Page) :
    String :=
  String.ofList p.written.reverse

end Page

end Offside

------------------------------------------------------------
-- Styles
------------------------------------------------------------

namespace Offside.Scalar

/- The ways of writing a text. -/
inductive Style where
  | plain
  | single
  | double
  deriving DecidableEq, Repr

/- Lines are broken at the first chance beyond this column. -/
def lineWidth : Nat := 80

/- The characters that end a line. -/
def isBreak
    (c : Char) :
    Bool :=
  c = '\n' || c = '\x85' || c = '\u2028' || c = '\u2029'

/- The characters that separate words. -/
def isSpacing
    (c : Char) :
    Bool :=
  isBreak c || c = ' ' || c = '\t' || c = '\r' || c = '\x00'

/- The characters that need no escape. -/
def isOrdinary
    (c : Char) :
    Bool :=
  c = '\n' || (' ' ≤ c && c ≤ '~')

/- The characters that cannot start a text without quotes. -/
def opensMarkup
    (c : Char) :
    Bool :=
  c ∈ ['#', ',', '[', ']', '\x7b', '\x7d', '&', '*', '!', '|', '>',
    '\'', '"', '%', '@', '\x60']

/- Whether a text ends or goes on with spacing. -/
def endsWord :
    List Char →
    Bool
  | [] => true
  | c :: _ => isSpacing c

/-
  Whether markup stands inside a text: a colon at the end of a
  word, or a number sign at the start of one.
-/
def hasMarkup
    (afterSpacing : Bool) :
    List Char →
    Bool
  | [] => false
  | c :: cs =>
      (c = ':' && endsWord cs)
        || (c = '#' && afterSpacing)
        || hasMarkup (isSpacing c) cs

/- Whether a text starts like markup. -/
def startsMarkup
    (text : List Char) :
    Bool :=
  match text with
  | [] => false
  | c :: cs =>
      opensMarkup c
        || ((c = '?' || c = ':' || c = '-') && endsWord cs)
        || ['-', '-', '-'].isPrefixOf text
        || ['.', '.', '.'].isPrefixOf text

/- Whether a space stands next to a line break. -/
def hasSpaceAtBreak :
    List Char →
    Bool
  | c :: d :: cs =>
      (c = ' ' && isBreak d) || (isBreak c && d = ' ')
        || hasSpaceAtBreak (d :: cs)
  | _ => false

/- Whether a text can be written without quotes. -/
def isPlain
    (text : List Char) :
    Bool :=
  text.all isOrdinary
    && !text.any isBreak
    && text.head? ≠ some ' '
    && text.getLast? ≠ some ' '
    && !startsMarkup text
    && !hasMarkup false text

/- Whether a text can be the key of an entry on one line. -/
def isSimpleKey
    (text : List Char) :
    Bool :=
  !text.isEmpty && !text.any isBreak && text.length + 5 < 128

/- The style of a text, as a key on one line or elsewhere. -/
def style
    (asKey : Bool)
    (text : List Char) :
    Style :=
  if isPlain text && !(asKey && text.isEmpty) then .plain
  else if text.all isOrdinary && !hasSpaceAtBreak text
      && !(asKey && text.any isBreak) then .single
  else .double

end Offside.Scalar

------------------------------------------------------------
-- Plain and Single-Quoted Texts
------------------------------------------------------------

namespace Offside.Scalar

/- How runs of characters are told apart. -/
inductive Run where
  | space
  | breaks
  | word
  deriving DecidableEq, Repr

/- The run that a character belongs to. -/
def runOf
    (c : Char) :
    Run :=
  if c = ' ' then .space else if isBreak c then .breaks else .word

/- The runs of a text, in order. -/
def runs
    (text : List Char) :
    List (List Char) :=
  text.splitBy fun a b => runOf a = runOf b

/- A single quote is written twice. -/
def doubleQuotes
    (text : List Char) :
    List Char :=
  text.flatMap fun c => if c = '\'' then [c, c] else [c]

/-
  Writes the runs of a text.  A single space beyond the line
  width becomes a new line, where folding is allowed; line
  breaks are written with one more.
-/
def writeRuns
    (indent : Nat)
    (folds : Bool)
    (quoted : Bool) :
    (first : Bool) →
    List (List Char) →
    Page →
    Page
  | _, [], p => p
  | first, run :: others, p =>
      let inside := !quoted || (!first && !others.isEmpty)
      let p :=
        match run with
        | ' ' :: more =>
            if more.isEmpty && folds && inside
                && lineWidth < p.column then
              p.newLine indent
            else p.put run
        | '\n' :: more =>
            let p := more.foldl (fun p _ => p.lineBreak)
              p.lineBreak.lineBreak
            p.pad indent
        | run => p.put (if quoted then doubleQuotes run else run)
      writeRuns indent folds quoted false others p

end Offside.Scalar

------------------------------------------------------------
-- Double-Quoted Texts
------------------------------------------------------------

namespace Offside.Scalar

/- The characters with an escape of their own. -/
def shortEscapes : List (Char × Char) :=
  [('\x00', '0'), ('\x07', 'a'), ('\x08', 'b'), ('\t', 't'),
   ('\n', 'n'), ('\x0b', 'v'), ('\x0c', 'f'), ('\r', 'r'),
   ('\x1b', 'e'), ('"', '"'), ('\\', '\\'), ('\x85', 'N'),
   ('\xa0', '_'), ('\u2028', 'L'), ('\u2029', 'P')]

/- A number in upper-case hexadecimal. -/
def upperHex
    (width n : Nat) :
    List Char :=
  (Text.hexDigits width n).map Char.toUpper

/- The escape of a character. -/
def escape
    (c : Char) :
    List Char :=
  match shortEscapes.lookup c with
  | some letter => ['\\', letter]
  | none =>
      if c.toNat ≤ 0xff then '\\' :: 'x' :: upperHex 2 c.toNat
      else if c.toNat ≤ 0xffff then '\\' :: 'u' :: upperHex 4 c.toNat
      else '\\' :: 'U' :: upperHex 8 c.toNat

/- Whether a character is escaped between double quotes. -/
def isEscaped
    (c : Char) :
    Bool :=
  c = '"' || c = '\\' || !(' ' ≤ c && c ≤ '~')

/-
  Writes the characters between double quotes.  Those in
  `pending` are read but not written.  Beyond the line width,
  the line is broken before a space or where nothing is
  pending, but not at the first or last character; a backslash
  ends the line, and one more keeps a space that starts the
  next one.
-/
def writeDouble
    (indent : Nat)
    (folds : Bool) :
    (first : Bool) →
    (pending : List Char) →
    List Char →
    Page →
    Page
  | _, pending, [], p => p.put pending
  | first, pending, c :: cs, p =>
      let inside := folds && !first && !cs.isEmpty
      if isEscaped c then
        let p := (p.put pending).put (escape c)
        if inside && lineWidth + 1 < p.column then
          let p := (p.put ['\\']).newLine indent
          let p := if cs.head? = some ' ' then p.put ['\\'] else p
          writeDouble indent folds false [] cs p
        else writeDouble indent folds false [] cs p
      else if inside && (c = ' ' || pending.isEmpty)
          && lineWidth < p.column + pending.length then
        let p := (p.put (pending ++ ['\\'])).newLine indent
        let p := if c = ' ' then p.put ['\\'] else p
        writeDouble indent folds false [c] cs p
      else writeDouble indent folds false (pending ++ [c]) cs p

end Offside.Scalar

------------------------------------------------------------
-- Texts
------------------------------------------------------------

namespace Offside.Scalar

/-
  Writes a text.  Lines after the first one are indented; the
  text is not broken into lines where it is a key on one line.
-/
def write
    (indent : Nat)
    (asKey : Bool)
    (text : List Char)
    (p : Page) :
    Page :=
  match style asKey text with
  | .plain => writeRuns indent (!asKey) false true (runs text) p
  | .single =>
      (writeRuns indent (!asKey) true true (runs text)
        (p.put ['\''])).put ['\'']
  | .double =>
      (writeDouble indent (!asKey) true [] text (p.put ['"'])).put ['"']

end Offside.Scalar
