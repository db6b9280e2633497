import Offside.Outline.Basic
import Offside.Outline.Scalar

/-
  Documents: the text of an outline, one entry or item a line,
  nested by indentation.

  Key definitions include:
    * `Offside.Document.writeEntries`
    * `Offside.Document.ofEntries`
    * `Offside.Outline.document`

  A map inside a map is indented by two; a list inside a map
  stands at the column of its key.  What follows a dash or the
  colon of a long key begins on the same line.
-/

------------------------------------------------------------
-- Entries and Items
------------------------------------------------------------

namespace Offside.Document

/- How much deeper the parts of an outline are. -/
def indentStep : Nat := 2

/- Goes to the column of an entry or item. -/
def startAt
    (column : Nat)
    (sameLine : Bool)
    (p : Page) :
    Page :=
  if sameLine then p.pad column else p.newLine column

/-
  Writes the key of an entry and the colon after it.  A key
  that is not simple has a line of its own after a question
  mark, and the colon begins the next line.
-/
def writeKey
    (column : Nat)
    (key : List Char)
    (p : Page) :
    Page :=
  if Scalar.isSimpleKey key then
    (Scalar.write (column + indentStep) true key p).put [':']
  else
    ((Scalar.write (column + indentStep) false key
      (p.put ['?', ' '])).newLine column).put [':']

mutual

/-
  Writes an outline after a dash or a colon.  `column` is that
  of the entry or item, `inMap` tells which of the two it is,
  and `sameLine` whether nested parts begin on this line.
-/
def writeOutline
    (column : Nat)
    (inMap sameLine : Bool) :
    Outline →
    Page →
    Page
  | .text s, p =>
      Scalar.write (column + indentStep) false s.toList (p.put [' '])
  | .list [], p => p.put [' ', '[', ']']
  | .list items, p =>
      writeItems
        (if inMap && !sameLine then column else column + indentStep)
        sameLine items p
  | .map entries, p =>
      writeEntries (column + indentStep) sameLine entries p

/- Writes the items of a list; the first may begin on this line. -/
def writeItems
    (column : Nat)
    (sameLine : Bool) :
    List Outline →
    Page →
    Page
  | [], p => p
  | item :: items, p =>
      writeItems column false items
        (writeOutline column false true item
          ((startAt column sameLine p).put ['-']))

/- Writes the entries of a map; the first may begin on this line. -/
def writeEntries
    (column : Nat)
    (sameLine : Bool) :
    List (String × Outline) →
    Page →
    Page
  | [], p => p
  | (key, outline) :: entries, p =>
      writeEntries column false entries
        (writeOutline column true (!Scalar.isSimpleKey key.toList)
          outline
          (writeKey column key.toList (startAt column sameLine p)))

end

/- The document of a map. -/
def ofEntries
    (entries : List (String × Outline)) :
    String :=
  (writeEntries 0 true entries Page.empty).lineBreak.text

end Offside.Document

namespace Offside.Outline

/- The document that shows an outline under its root. -/
def document
    (outline : Outline) :
    String :=
  Document.ofEntries [("ROOT", outline)]

end Offside.Outline
